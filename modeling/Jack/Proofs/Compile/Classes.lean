import Jack.Proofs.Compile.Statements

/-!
# The compilation of declarations and classes

Declarations are checked one at a time against those before them. Over a whole scope this comes to
different names and to enough numbers for each kind. From there the rules for subroutines and for
classes are put together.
-/

namespace Jack.Grammar

open Jack.Action
open Vm (Instruction)

/-- Can variables be declared one after another, after those in `before`? -/
def Variable.Fit (before : List Variable) : List Variable → Prop
  | [] => True
  | v :: vs =>
    (v.name ∉ names before ∧ count v.kind before < maxWord) ∧ Fit (before ++ [v]) vs

namespace Variable

/-- Variables fit in two parts if the second part fits behind the first. -/
lemma fit_append (before vs ws : List Variable) :
    Fit before (vs ++ ws) ↔ Fit before vs ∧ Fit (before ++ vs) ws := by
  induction vs generalizing before with
  | nil => simp [Fit]
  | cons v vs ih => simp [Fit, ih, and_assoc]

/-- One declaration more respects the rules for the whole scope. -/
lemma rules_concat {before : List Variable} {v : Variable} (hd : (names before).Nodup)
    (hf : ∀ kind, count kind before ≤ maxWord) (hn : v.name ∉ names before)
    (hc : count v.kind before < maxWord) :
    (names (before ++ [v])).Nodup ∧ ∀ kind, count kind (before ++ [v]) ≤ maxWord := by
  constructor
  · rw [names_append, List.nodup_append]
    refine ⟨hd, List.pairwise_singleton _ _, ?_⟩
    intro a ha b hb hab
    obtain rfl := List.mem_singleton.1 hb
    exact hn (hab ▸ ha)
  · intro kind
    have hk := hf kind
    rw [count_append, count_singleton]
    split
    · next e =>
      subst e
      omega
    · omega

/-- What is checked declaration by declaration is the rule for the whole scope. -/
lemma fit_iff {before : List Variable} (vs : List Variable) (hd : (names before).Nodup)
    (hf : ∀ kind, count kind before ≤ maxWord) :
    Fit before vs ↔ (names (before ++ vs)).Nodup ∧ ∀ kind, count kind (before ++ vs) ≤ maxWord := by
  induction vs generalizing before with
  | nil => simp [Fit, hd, hf]
  | cons v vs ih =>
    have happ : before ++ v :: vs = before ++ [v] ++ vs := by simp
    by_cases hv : v.name ∉ names before ∧ count v.kind before < maxWord
    -- The rules hold of `before` by induction, so each declaration is checked against a scope that
    -- respects them.
    · obtain ⟨hd', hf'⟩ := rules_concat hd hf hv.1 hv.2
      rw [Fit, and_iff_right hv, ih hd' hf', happ]
    · rw [Fit]
      refine iff_of_false (fun h => hv h.1) ?_
      rintro ⟨hnd, hfew⟩
      apply hv
      constructor
      · intro hmem
        rw [names_append, List.nodup_append] at hnd
        exact hnd.2.2 _ hmem _ (List.mem_map_of_mem List.mem_cons_self) rfl
      · have hk := hfew v.kind
        rw [happ, count_append, count_append, count_singleton, if_pos rfl] at hk
        omega

/-- Variables fit into an empty scope if their names differ and no kind has too many. -/
lemma fit_nil_iff (vs : List Variable) :
    Fit [] vs ↔ (names vs).Nodup ∧ ∀ kind, count kind vs ≤ maxWord :=
  fit_iff vs List.nodup_nil fun _ => Nat.zero_le _

end Variable

/-! ## Declarations -/

section Scopes

variable (p : Point) (level : Bool) (vs ws : List Variable)

/-- Extending a scope adds the variables at its end. -/
@[simp] lemma scope_extend : (p.extend level vs).scope level = p.scope level ++ vs := by
  cases level <;> rfl

/-- Extending twice is extending by all the variables. -/
@[simp] lemma extend_extend :
    (p.extend level vs).extend level ws = p.extend level (vs ++ ws) := by
  cases level <;> simp [Point.extend]

/-- Extending by no variables changes nothing. -/
@[simp] lemma extend_nil : p.extend level [] = p := by
  cases level <;> simp [Point.extend]

end Scopes

/-- Actions declare variables in the class, or in the subroutine, and nothing else. -/
def Declares (level : Bool) (as : List Action) (vs : List Variable) : Prop :=
  ∀ p : Point, Does p as (Variable.Fit (p.scope level) vs) [] (p.extend level vs)

namespace Declares

variable {level : Bool} {as bs : List Action} {vs ws : List Variable}

/-- An empty list of actions declares nothing. -/
lemma nil : Declares level [] [] := by
  intro p
  exact ⟨Iff.rfl, rfl, by simp⟩

/-- Two lists of actions declare the variables of the first and then those of the second. -/
lemma append (h : Declares level as vs) (k : Declares level bs ws) :
    Declares level (as ++ bs) (vs ++ ws) := by
  intro p
  obtain ⟨ho, hi, ha⟩ := h p
  obtain ⟨ko, ki, ka⟩ := k (p.extend level vs)
  refine ⟨?_, ?_, ?_⟩
  · simp [ho, ha, ko, Variable.fit_append]
  · simp [hi, ha, ki]
  · simp [ha, ka]

/-- The actions of the items of a list declare the variables of the items. -/
lemma flatMap {α : Type} {f : α → List Action} {g : α → List Variable}
    (h : ∀ x, Declares level (f x) (g x)) (xs : List α) :
    Declares level (xs.flatMap f) (xs.flatMap g) := by
  induction xs with
  | nil => exact nil
  | cons x xs ih =>
    rw [List.flatMap_cons, List.flatMap_cons]
    exact (h x).append ih

/-- Taking a token declares nothing. -/
lemma take (h : Declares level as vs) (k : TokenKind) :
    Declares level (Grammar.take k :: as) vs := by
  intro p
  obtain ⟨ho, hi, ha⟩ := h p
  exact ⟨by simpa [Grammar.take, Allowed, Action.next] using ho, hi, ha⟩

/-- Nodes and tokens around declarations declare nothing. -/
lemma inNode (h : Declares level as vs) (node : Node) (k l : TokenKind) :
    Declares level ([.openNode node, Grammar.take k] ++ as ++ [Grammar.take l, .closeNode node])
      vs := by
  intro p
  obtain ⟨ho, hi, ha⟩ := h p
  refine ⟨?_, ?_, ?_⟩
  · simp [Grammar.take, Allowed, Action.next, ho]
  · simp [Grammar.take, output, Action.next, hi]
  · simp [Grammar.take, Action.next, ha]

end Declares

/-- A declared name declares one variable, at the level of its kind. -/
lemma declares_nameScript (type : String) (kind : SymbolKind) (name : String) :
    Declares kind.isClassLevel (nameScript type kind name) [⟨name, type, kind⟩] := by
  intro p
  exact ⟨by simp [nameScript, Grammar.take, Allowed, Action.next, Variable.Fit], rfl, rfl⟩

/-- A list of names declares them in order, with one type and one kind. -/
lemma Names.declares (kind : SymbolKind) (n : Names) :
    Declares kind.isClassLevel (n.script kind) (n.declared kind) := by
  have hm : Declares kind.isClassLevel
      (n.more.flatMap fun name => Grammar.take (.symbol ',') :: nameScript n.type.text kind name)
      (n.more.map fun name => ⟨name, n.type.text, kind⟩) := by
    rw [List.map_eq_flatMap]
    exact Declares.flatMap (fun name => (declares_nameScript _ kind name).take _) n.more
  exact ((declares_nameScript _ kind n.first).append hm).take _

/-- A declaration of the class declares its names at the level of the class. -/
lemma ClassVarDec.declares (d : ClassVarDec) :
    Declares true d.script (d.names.declared d.storage.kind) := by
  have hk : d.storage.kind.isClassLevel = true := by cases d.storage <;> rfl
  have hn := d.names.declares d.storage.kind
  rw [hk] at hn
  exact hn.inNode .classVarDec _ _

/-- A `var` declares its names as locals. -/
lemma declares_localsScript (n : Names) :
    Declares false (localsScript n) (n.declared .localVar) :=
  (n.declares .localVar).inNode .varDec _ _

/-- A parameter declares one argument. -/
lemma Parameter.declares (p : Parameter) :
    Declares false p.script [⟨p.name, p.type.text, .argument⟩] :=
  (declares_nameScript _ .argument p.name).take _

/-- A list of parameters declares them as arguments, in order. -/
lemma declares_parametersScript (ps : List Parameter) :
    Declares false (parametersScript ps) (ps.map fun p => ⟨p.name, p.type.text, .argument⟩) := by
  cases ps with
  | nil => exact .nil
  | cons p ps =>
    rw [List.map_eq_flatMap]
    exact p.declares.append (Declares.flatMap (fun q => q.declares.take _) ps)

/-! ## Subroutines -/

/-- The point between two subroutines of a class: `vs` are the variables of the last one. -/
def ClassDec.point (o : Options) (c : ClassDec) (vs : List Variable) (n : Nat) (ls : List Nat) :
    Point :=
  ⟨⟨o, c.name, c.declared, vs⟩, n, ls⟩

/-- The rules for the names of a subroutine are checked while it is read. -/
lemma Subroutine.fit_written_iff (className : String) (s : Subroutine) :
    Variable.Fit (s.receiver className) s.written ↔
      (Variable.names s.written).Nodup ∧
      (s.kind = .method → "this" ∉ Variable.names s.written) ∧
      ∀ kind, Variable.count kind (s.declared className) ≤ maxWord := by
  -- The object counts among the arguments, so the whole scope is looked at.
  have hr : Variable.Fit [] (s.receiver className) := by
    rw [receiver]
    split
    · exact ⟨⟨List.not_mem_nil, Nat.zero_lt_succ _⟩, trivial⟩
    · trivial
  have hw := Variable.fit_append [] (s.receiver className) s.written
  rw [and_iff_right hr, List.nil_append, Variable.fit_nil_iff] at hw
  rw [← hw, ← and_assoc, Subroutine.declared]
  refine and_congr_left' ?_
  rw [receiver]
  by_cases hk : s.kind = .method
  · simp [hk, Variable.names, and_comm]
  · simp [hk]

/-- Only a constructor may go without a return, and then its object is returned. -/
lemma Subroutine.does_closingScript (s : Subroutine) (p : Point) :
    Does p s.closingScript (s.kind ≠ .constructor → s.body.endsInReturn = true) s.closing p := by
  rw [closingScript, closing]
  cases hr : s.body.endsInReturn with
  | true => exact ⟨by simp [take, Allowed, Action.next], by simp [take, output, Action.next], rfl⟩
  | false =>
    by_cases hk : s.kind = .constructor
    · simp only [hk]
      exact ⟨by simp [take, Allowed, Action.next], by simp [take, output, Action.next], rfl⟩
    · simp only [hk]
      exact ⟨by simp [take, Allowed, Action.next, hk], by simp [take, output, Action.next], rfl⟩

/-- Entering a subroutine leaves of the variables of subroutines the object of a method at most. -/
lemma Subroutine.entered_point (o : Options) (c : ClassDec) (s : Subroutine) (vs : List Variable)
    (n : Nat) (ls : List Nat) :
    (c.point o vs n ls).entered s.kind = c.point o (s.receiver c.name) n ls := rfl

/-- The code at the head of a subroutine is produced once its variables are declared. -/
lemma Subroutine.output_enterBody (o : Options) (c : ClassDec) (s : Subroutine) (n : Nat)
    (ls : List Nat) :
    (Action.enterBody s.kind s.name).output (c.point o (s.declared c.name) n ls) = s.head o c := by
  have hl : Variable.count .localVar (s.receiver c.name) = 0 := by
    rw [receiver]
    split <;> rfl
  have hp : (c.point o (s.declared c.name) n ls).prologue s.kind = s.prologue o c := by
    rw [prologue]
    cases s.kind <;> rfl
  simp only [output, head, hp]
  simp [ClassDec.point, Subroutine.declared, hl]

/-- The part of the script of a subroutine that declares what is written in it. -/
def Subroutine.writtenScript (s : Subroutine) : List Action :=
  parametersScript s.params ++ ([.closeNode .parameterList, take (.symbol ')'),
    .openNode .subroutineBody, take (.symbol '{')] ++ s.locals.flatMap localsScript)

/-- The parameters and the locals of a subroutine are declared before its code begins. -/
lemma Subroutine.declares_writtenScript (s : Subroutine) :
    Declares false s.writtenScript s.written := by
  have hq : Declares false [.closeNode .parameterList, take (.symbol ')'),
      .openNode .subroutineBody, take (.symbol '{')] [] := by
    intro p
    exact ⟨by simp [take, Allowed, Action.next, Variable.Fit], rfl, by simp [take, Action.next]⟩
  exact (declares_parametersScript s.params).append
    (hq.append (Declares.flatMap declares_localsScript s.locals))

/-- The script of a subroutine is its head, its declarations, its body and its end. -/
lemma Subroutine.script_eq (s : Subroutine) :
    s.script = [.openNode .subroutineDec, take (.keyword (kindKeyword s.kind)),
      take (resultToken s.result), take (.identifier s.name), .enterSubroutine s.kind,
      take (.symbol '('), .openNode .parameterList] ++ (s.writtenScript ++
      ([.enterBody s.kind s.name, .openNode .statements] ++ (s.body.script ++
      (s.closingScript ++ [.closeNode .subroutineDec])))) := by
  simp [script, writtenScript]

/-- A subroutine is well formed if its variables fit, its body is valid and it returns, where it is
no constructor. -/
lemma Subroutine.wellFormed_iff (o : Options) (c : ClassDec) (s : Subroutine) :
    s.WellFormed o c ↔ Variable.Fit (s.receiver c.name) s.written ∧
      s.body.Valid (s.context o c) ∧
      (s.kind ≠ .constructor → s.body.endsInReturn = true) := by
  rw [fit_written_iff]
  constructor
  · rintro ⟨distinct, notThis, few, body, returns⟩
    exact ⟨⟨distinct, notThis, few⟩, body, returns⟩
  · rintro ⟨⟨distinct, notThis, few⟩, body, returns⟩
    exact ⟨distinct, notThis, few, body, returns⟩

/-- The script of a subroutine can be carried out exactly where the subroutine is well formed, and
then produces its code. -/
lemma Subroutine.does (o : Options) (c : ClassDec) (s : Subroutine) (vs : List Variable) (n : Nat)
    (ls : List Nat) :
    Does (c.point o vs n ls) s.script (s.WellFormed o c) (s.code o c n)
      (c.point o (s.declared c.name) (n + s.body.labels) ls) := by
  -- The points along a subroutine: before its parameters, before its statements, behind them.
  obtain ⟨wo, wi, wa⟩ := s.declares_writtenScript (c.point o (s.receiver c.name) n ls)
  have hv : (c.point o (s.receiver c.name) n ls).extend false s.written =
      c.point o (s.declared c.name) n ls := rfl
  have hs : (c.point o (s.receiver c.name) n ls).scope false = s.receiver c.name := rfl
  have hc : (c.point o (s.declared c.name) n ls).toContext = s.context o c := rfl
  have hl : (c.point o (s.declared c.name) n ls).labels = n := rfl
  have hn : (c.point o (s.declared c.name) n ls).later s.body.labels =
      c.point o (s.declared c.name) (n + s.body.labels) ls := rfl
  obtain ⟨bo, bi, ba⟩ := s.body.does (c.point o (s.declared c.name) n ls)
  obtain ⟨co, ci, ca⟩ :=
    s.does_closingScript (c.point o (s.declared c.name) (n + s.body.labels) ls)
  rw [hs] at wo
  rw [hv] at wa
  rw [hc] at bo bi
  rw [hl] at bi
  rw [hn] at ba
  rw [script_eq]
  refine ⟨?_, ?_, ?_⟩
  · simp [take, Allowed, Action.next, s.entered_point, wo, wa, bo, ba, co, wellFormed_iff]
  · simp [take, Action.next, s.entered_point, wi, wa, bi, ba, ci, ca, s.output_enterBody, code]
    simp [output]
  · simp [take, Action.next, s.entered_point, wa, ba, ca]

/-! ## Classes -/

/-- The same holds of several subroutines in a row, with their labels counted on. -/
lemma does_subroutines (o : Options) (c : ClassDec) (ss : List Subroutine) (vs : List Variable)
    (n : Nat) (ls : List Nat) :
    (AllAllowed (c.point o vs n ls) (ss.flatMap Subroutine.script) ↔
      ∀ s ∈ ss, s.WellFormed o c) ∧
    outputs (c.point o vs n ls) (ss.flatMap Subroutine.script) = c.codeFrom o n ss := by
  induction ss generalizing vs n with
  | nil => simp [ClassDec.codeFrom]
  | cons s ss ih =>
    obtain ⟨so, si, sa⟩ := s.does o c vs n ls
    obtain ⟨ro, ri⟩ := ih (s.declared c.name) (n + s.body.labels)
    simp [so, si, sa, ro, ri, ClassDec.codeFrom]

/-- The point before the first action of a class. -/
def startPoint (o : Options) : Point := ⟨⟨o, "", [], []⟩, 0, []⟩

/-- The declarations of a class produce no code and leave its variables declared. -/
lemma ClassDec.does_vars (o : Options) (c : ClassDec) :
    Does { startPoint o with className := c.name } (c.vars.flatMap ClassVarDec.script)
      (Variable.Fit [] c.declared) [] (c.point o [] 0 []) :=
  Declares.flatMap ClassVarDec.declares c.vars { startPoint o with className := c.name }

/-- A class is well formed if its variables fit and its subroutines are well formed. -/
lemma ClassDec.wellFormed_iff (o : Options) (c : ClassDec) :
    c.WellFormed o ↔ Variable.Fit [] c.declared ∧ ∀ s ∈ c.subroutines, s.WellFormed o c := by
  rw [Variable.fit_nil_iff]
  constructor
  · rintro ⟨distinct, few, subroutines⟩
    exact ⟨⟨distinct, few⟩, subroutines⟩
  · rintro ⟨⟨distinct, few⟩, subroutines⟩
    exact ⟨distinct, few, subroutines⟩

/-- The script of a class works out exactly where the static rules hold. -/
lemma ClassDec.allAllowed_script (o : Options) (c : ClassDec) :
    AllAllowed (startPoint o) c.script ↔ c.WellFormed o := by
  obtain ⟨vo, -, va⟩ := c.does_vars o
  obtain ⟨so, -⟩ := does_subroutines o c c.subroutines [] 0 []
  simp [script, take, Allowed, Action.next, vo, va, so, wellFormed_iff]

/-- The actions of a class put out the code of the class. -/
lemma ClassDec.outputs_script (o : Options) (c : ClassDec) :
    outputs (startPoint o) c.script = c.code o := by
  obtain ⟨-, vi, va⟩ := c.does_vars o
  obtain ⟨-, si⟩ := does_subroutines o c c.subroutines [] 0 []
  simp [script, take, output, Action.next, vi, va, si, code]

end Jack.Grammar
