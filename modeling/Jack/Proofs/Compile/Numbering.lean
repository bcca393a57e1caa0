import Jack.Proofs.Compile.Frame
import Jack.Proofs.Parse.Nesting
import Mathlib.Logic.Function.Iterate

/-!
# The labels of an engine

An engine may compile one class after another, and each compilation may stop anywhere. The numbers
of labels go on from one compilation to the next, and a number is given out once. As the branches
and loops of a script are properly nested, each number stands in at most one first label and, once
its branch or loop is left, in one label at the end.
-/

namespace Jack

open Vm (Instruction labelNames)

/-- A label that may be in the code: its number is given out, and as long as its branch or loop is
open it is the first label of the two, and not still to come. -/
def Placed (next : Nat) (opened : List (Nat × Bool)) (k : Nat) (ends : Bool) : Prop :=
  k < next ∧ ∀ first, (k, first) ∈ opened → ends = false ∧ first = false

namespace Placed

variable {next k : Nat} {first ends : Bool} {opened : List (Nat × Bool)}

/-- With fewer branches and loops open, less is demanded of a label. -/
lemma tail {o : Nat × Bool} (h : Placed next (o :: opened) k ends) : Placed next opened k ends :=
  ⟨h.1, fun first hm => h.2 first (List.mem_cons_of_mem o hm)⟩

/-- Labels of other branches and loops do not mind where the innermost one stands. -/
lemma cons (h : Placed next opened k ends) {l : Nat} (hl : k ≠ l) :
    Placed next ((l, first) :: opened) k ends := by
  refine ⟨h.1, ?_⟩
  intro first' hm
  obtain heq | hm := List.mem_cons.1 hm
  · cases heq
    exact absurd rfl hl
  · exact h.2 first' hm

/-- No label of a branch or loop is there before its first label is. -/
lemma ne_of_first {l : Nat} (h : Placed next ((l, true) :: opened) k ends) : k ≠ l := by
  rintro rfl
  exact absurd (h.2 true List.mem_cons_self).2 (by decide)

/-- The labels of what is not open any more. -/
lemma of_left (hk : k < next) (ho : ∀ first, (k, first) ∉ opened) : Placed next opened k ends :=
  ⟨hk, fun first hm => absurd hm (ho first)⟩

/-- The first label of a branch or loop that is behind is where it should be. -/
lemma first_of_left (hk : k < next) (ho : ∀ first, (k, first) ∉ opened) :
    Placed next ((k, false) :: opened) k false := by
  refine ⟨hk, ?_⟩
  intro first hm
  obtain heq | hm := List.mem_cons.1 hm
  · cases heq
    exact ⟨rfl, rfl⟩
  · exact absurd hm (ho first)

end Placed

/-- The labels in the code of an engine are different, and different from those still to come. -/
structure Engine.Labelled (e : Engine) (firsts : List Bool) : Prop where
  length : e.openLabels.length = firsts.length
  distinct : e.openLabels.Nodup
  given : ∀ k ∈ e.openLabels, k < e.labels
  names : Numbered (labelNames e.code) (Placed e.labels (e.openLabels.zip firsts))

namespace Nesting

variable {s t : Nesting}

/-- An inert action opens and closes nothing. -/
lemma next?_of_inert {a : Action} (ha : a.Inert) : s.next? a = some s := by
  cases a with
  | openNode _ | closeNode _ | openLabels | branchElse | branchEnd | loopTop | loopEnd =>
    exact ha.elim
  | emit i =>
    cases i with
    | label name => exact ha.elim
    | _ => rfl
  | _ => rfl

/-- Closing a node leaves the branches and loops. -/
lemma labels_of_closeNode {node : Node} (h : s.next? (.closeNode node) = some t) :
    s.labels = t.labels := by
  rw [next?_closeNode h]
  rfl

/-- The first label of a branch or loop is placed once. -/
lemma labels_of_branchElse (h : s.next? .branchElse = some t) :
    ∃ firsts, s.labels = true :: firsts ∧ t.labels = false :: firsts := by
  rw [next?] at h
  split at h
  · next hl =>
    cases h
    obtain ⟨firsts, hf⟩ := List.head?_eq_some_iff.1 hl
    exact ⟨firsts, hf, by simp [hf]⟩
  · cases h

/-- The branch that ends is the innermost, and its first label has come. -/
lemma labels_of_branchEnd (h : s.next? .branchEnd = some t) : s.labels = false :: t.labels := by
  rw [next?] at h
  split at h
  · next hl =>
    cases h
    obtain ⟨firsts, hf⟩ := List.head?_eq_some_iff.1 hl
    simp [hf]
  · cases h

end Nesting

/-- The labels of emitted instructions come behind those so far. -/
lemma Engine.labelNames_emitAll (e : Engine) (is : List Instruction) :
    labelNames (e.emitAll is).code = labelNames e.code ++ labelNames is := by
  rw [e.code_emitAll, Vm.labelNames_append]

namespace Engine.Labelled

variable {e f : Engine} {firsts : List Bool}

/-- Where the labels are kept they stay different. -/
lemma keep (h : e.Labelled firsts) (hk : e.Keeps f) : f.Labelled firsts := by
  refine ⟨?_, ?_, ?_, ?_⟩
  · rw [hk.openLabels]
    exact h.length
  · rw [hk.openLabels]
    exact h.distinct
  · rw [hk.openLabels, hk.labels]
    exact h.given
  · rw [hk.openLabels, hk.labels, hk.names]
    exact h.names

/-- What is open at the end of a compilation is left open. -/
lemma reset (h : e.Labelled firsts) : Engine.Labelled { e with openLabels := [] } [] where
  length := rfl
  distinct := List.nodup_nil
  given := by simp
  names := h.names.mono fun k ends hk => ⟨hk.1, by simp⟩

/-- A branch or loop that opens has a new number. -/
lemma openLabel (h : e.Labelled firsts) : e.openLabel.Labelled (true :: firsts) where
  length := congrArg Nat.succ h.length
  distinct := by
    refine List.nodup_cons.2 ⟨?_, h.distinct⟩
    intro hm
    exact absurd (h.given _ hm) (Nat.lt_irrefl _)
  given := by
    intro k hk
    obtain rfl | hk := List.mem_cons.1 hk
    · exact Nat.lt_succ_self _
    · exact Nat.lt_succ_of_lt (h.given k hk)
  names := by
    refine h.names.mono ?_
    intro k ends hk
    exact Placed.cons ⟨Nat.lt_succ_of_lt hk.1, hk.2⟩ (Nat.ne_of_lt hk.1)

/-- The innermost branch or loop. -/
lemma exists_innermost {first : Bool} (h : e.Labelled (first :: firsts)) :
    ∃ ks, e.openLabels = e.innermostLabel :: ks ∧ e.innermostLabel < e.labels ∧
      ∀ first', (e.innermostLabel, first') ∉ ks.zip firsts := by
  cases hks : e.openLabels with
  | nil =>
    have hlength := h.length
    rw [hks] at hlength
    cases hlength
  | cons k ks =>
    have hk : e.innermostLabel = k := by
      rw [innermostLabel, hks]
      rfl
    have hd := h.distinct
    rw [hks] at hd
    rw [hk]
    refine ⟨ks, rfl, h.given k (hks ▸ List.mem_cons_self), ?_⟩
    intro first' hm
    exact (List.nodup_cons.1 hd).1 (List.of_mem_zip hm).1

/-- The first label of the innermost branch or loop is placed. -/
lemma placeFirst (h : e.Labelled (true :: firsts)) {name : String}
    (hname : HasNumber name e.innermostLabel false) (hl : f.labels = e.labels)
    (ho : f.openLabels = e.openLabels) (hn : labelNames f.code = labelNames e.code ++ [name]) :
    f.Labelled (false :: firsts) := by
  obtain ⟨ks, hks, hlt, hout⟩ := h.exists_innermost
  have hnames := h.names
  rw [hks, List.zip_cons_cons] at hnames
  refine ⟨by rw [ho]; exact h.length, by rw [ho]; exact h.distinct, by rw [ho, hl]; exact h.given,
    ?_⟩
  rw [hn, hl, ho, hks, List.zip_cons_cons]
  -- As the first label is still to come, nothing in the code has its number.
  refine (hnames.append hname.only ?_).mono ?_
  · rintro l ends hp ⟨hk, -⟩
    exact hp.ne_of_first hk
  · rintro l ends (hp | ⟨rfl, rfl⟩)
    · exact hp.tail.cons hp.ne_of_first
    · exact Placed.first_of_left hlt hout

/-- The label at the end of the innermost branch or loop is placed. -/
lemma placeEnd (h : e.Labelled (false :: firsts)) {name : String}
    (hname : HasNumber name e.innermostLabel true) (hl : f.labels = e.labels)
    (ho : f.openLabels = e.openLabels.tail) (hn : labelNames f.code = labelNames e.code ++ [name]) :
    f.Labelled firsts := by
  obtain ⟨ks, hks, hlt, hout⟩ := h.exists_innermost
  have hlength := h.length
  have hdistinct := h.distinct
  have hgiven := h.given
  have hnames := h.names
  rw [hks] at hlength hdistinct hgiven hnames
  rw [hks, List.tail_cons] at ho
  refine ⟨?_, ?_, ?_, ?_⟩
  · rw [ho]
    exact Nat.succ.inj hlength
  · rw [ho]
    exact (List.nodup_cons.1 hdistinct).2
  · rw [ho, hl]
    exact fun k hk => hgiven k (List.mem_cons_of_mem _ hk)
  · rw [hn, hl, ho]
    -- Its number is in the code, but only with the mark of a first label.
    refine (hnames.append hname.only ?_).mono ?_
    · rintro l ends hp ⟨rfl, rfl⟩
      exact absurd (hp.2 false List.mem_cons_self).1 (by decide)
    · rintro l ends (hp | ⟨rfl, rfl⟩)
      · exact hp.tail
      · exact Placed.of_left hlt hout

/-- One action keeps the labels different, also where it fails. -/
lemma perform {s t : Nesting} {a : Action} (h : e.Labelled s.labels) (hn : s.next? a = some t) :
    (e.perform a).engine.Labelled t.labels := by
  by_cases ha : a.Inert
  · obtain rfl := Option.some.inj ((Nesting.next?_of_inert ha).symm.trans hn)
    exact h.keep (e.keeps_perform ha)
  cases a with
  | consume _ | openNode _ =>
    cases hn
    exact ⟨h.length, h.distinct, h.given, h.names⟩
  | closeNode node =>
    rw [Nesting.labels_of_closeNode hn] at h
    exact ⟨h.length, h.distinct, h.given, h.names⟩
  | openLabels =>
    cases hn
    exact h.openLabel
  | branchElse =>
    obtain ⟨firsts, hs, ht⟩ := Nesting.labels_of_branchElse hn
    rw [hs] at h
    rw [ht]
    exact h.placeFirst (hasNumber_branchFalse _) rfl rfl (e.labelNames_emitAll [.goto _, .label _])
  | loopTop =>
    obtain ⟨firsts, hs, ht⟩ := Nesting.labels_of_branchElse hn
    rw [hs] at h
    rw [ht]
    exact h.placeFirst (hasNumber_loopTop _) rfl rfl (e.labelNames_emitAll [.label _])
  | branchEnd =>
    rw [Nesting.labels_of_branchEnd hn] at h
    exact h.placeEnd (hasNumber_branchEnd _) rfl rfl (e.labelNames_emitAll [.label _])
  | loopEnd =>
    rw [Nesting.labels_of_branchEnd hn] at h
    exact h.placeEnd (hasNumber_loopEnd _) rfl rfl (e.labelNames_emitAll [.goto _, .label _])
  | emit i =>
    -- A script has no labels but those of branches and loops.
    cases i with
    | label name => cases hn
    | _ => exact absurd trivial ha
  | _ => exact absurd trivial ha

/-- Actions keep the labels different, up to where they stop. -/
lemma performAll {s t : Nesting} {as : List Action} (h : e.Labelled s.labels)
    (hr : s.run? as = some t) : ∃ firsts, (e.performAll as).engine.Labelled firsts := by
  induction as generalizing e s with
  | nil => exact ⟨s.labels, h⟩
  | cons a as ih =>
    obtain ⟨u, hu, hr⟩ := Option.bind_eq_some_iff.1 hr
    have hp := h.perform hu
    rw [Engine.performAll]
    revert hp
    obtain ⟨f, none | stop⟩ := e.perform a <;> intro hp
    · exact ih hp hr
    · exact ⟨u.labels, hp⟩

/-- Compiling a class leaves different labels, whether it succeeds or not. -/
lemma compileClass (h : e.Labelled firsts) : ∃ firsts', e.compileClass.2.Labelled firsts' := by
  obtain ⟨t, ht⟩ := Script.exists_run?_ofTokens e.tokens e.last .closed
  rw [e.compileClass_snd]
  exact performAll h.reset ht

end Engine.Labelled

/-- An engine starts without labels. -/
lemma Engine.labelled_start (o : Options) (tokens : List Token) :
    (Engine.start o tokens).Labelled [] where
  length := rfl
  distinct := List.nodup_nil
  given := by simp [start]
  names := Numbered.nil

/-- However often an engine compiles and however it fares, no two labels in its code have the same
name. -/
theorem labels_distinct_over_compilations (o : Options) (tokens : List Token) (n : Nat) :
    (labelNames ((fun e : Engine => e.compileClass.2)^[n] (Engine.start o tokens)).code).Nodup := by
  have h : ∃ firsts, ((fun e : Engine => e.compileClass.2)^[n] (Engine.start o tokens)).Labelled
      firsts := by
    induction n with
    | zero => exact ⟨[], Engine.labelled_start o tokens⟩
    | succ n ih =>
      obtain ⟨firsts, hf⟩ := ih
      rw [Function.iterate_succ_apply']
      exact hf.compileClass
  obtain ⟨firsts, hf⟩ := h
  exact hf.names.distinct

end Jack
