import Jack.Proofs.Compile.Mismatch
import Jack.Proofs.Vm.Labels

/-!
# What actions leave as it is

Few actions have to do with the parse tree, with the numbers of labels and with labels in the code.
All others keep these parts of an engine, also where they fail.
-/

namespace Jack

open Vm (Instruction labelNames)

/-- The tree, the numbering and the labels of an engine are those of another one. -/
structure Engine.Keeps (e f : Engine) : Prop where
  tree : f.tree = e.tree
  labels : f.labels = e.labels
  openLabels : f.openLabels = e.openLabels
  names : labelNames f.code = labelNames e.code

/-- Does an action keep the tree, the numbering and the labels? -/
def Action.Inert : Action → Prop
  | .consume _ | .openNode _ | .closeNode _ | .openLabels | .branchElse | .branchEnd | .loopTop
  | .loopEnd | .emit (.label _) => False
  | _ => True

namespace Engine

namespace Keeps

variable {e f g : Engine}

/-- An engine keeps what it has. -/
lemma refl : e.Keeps e := ⟨rfl, rfl, rfl, rfl⟩

/-- Keeping carries over two steps. -/
lemma trans (h : e.Keeps f) (h' : f.Keeps g) : e.Keeps g :=
  ⟨h'.tree.trans h.tree, h'.labels.trans h.labels, h'.openLabels.trans h.openLabels,
    h'.names.trans h.names⟩

/-- An event without a label keeps the tree and the labels. -/
lemma note {event : Event} (h : labelNames (Event.code [event]) = []) : e.Keeps (e.note event) := by
  refine ⟨rfl, rfl, rfl, ?_⟩
  rw [e.code_note, Vm.labelNames_append, h, List.append_nil]

/-- An instruction that is no label keeps the tree and the labels. -/
lemma emit {i : Instruction} (h : labelNames [i] = []) : e.Keeps (e.emit i) := note h

/-- Instructions among which there is no label keep the tree and the labels. -/
lemma emitAll {is : List Instruction} (h : labelNames is = []) : e.Keeps (e.emitAll is) := by
  induction is generalizing e with
  | nil => exact refl
  | cons i is ih =>
    have hs : labelNames [i] ++ labelNames is = [] := (Vm.labelNames_append [i] is).symm.trans h
    obtain ⟨hi, his⟩ := List.append_eq_nil_iff.1 hs
    exact (emit hi).trans (ih his)

end Keeps

variable (e : Engine)

/-- Declaring a name keeps the tree and the labels. -/
lemma keeps_declare (name type : String) (kind : SymbolKind) (span : Span) :
    e.Keeps (e.declare name type kind span).engine := by
  rw [declare]
  split <;> exact ⟨rfl, rfl, rfl, rfl⟩

/-- Entering a subroutine keeps the tree and the labels. -/
lemma keeps_enterSubroutine (kind : SubroutineKind) :
    e.Keeps (e.enterSubroutine kind).engine := by
  simp only [enterSubroutine]
  split
  · split <;> exact ⟨rfl, rfl, rfl, rfl⟩
  · exact ⟨rfl, rfl, rfl, rfl⟩

/-- Entering a body keeps the tree and the labels, as its prologue has none. -/
lemma keeps_enterBody (kind : SubroutineKind) (name : String) :
    e.Keeps (e.enterBody kind name) := by
  have hp : labelNames (e.prologue kind) = [] := by cases kind <;> rfl
  exact ((Keeps.note rfl).trans (Keeps.emit rfl)).trans (Keeps.emitAll hp)

/-- Using a variable keeps the tree and the labels. -/
lemma keeps_withVariable (name : String) (span : Span) {use : Symbol → List Instruction}
    (hu : ∀ s, labelNames (use s) = []) : e.Keeps (e.withVariable name span use).engine := by
  rw [withVariable]
  split
  · next s _ => exact Keeps.emitAll (hu s)
  · exact Keeps.refl

/-- Pushing a number keeps the tree and the labels. -/
lemma keeps_integer (value : Nat) (span : Span) : e.Keeps (e.integer value span).engine := by
  rw [integer]
  split
  · exact Keeps.emit rfl
  · exact Keeps.refl

/-- Appending characters keeps the tree and the labels. -/
lemma keeps_appendChars (span : Span) (cs : List Char) :
    e.Keeps (appendChars span e cs).engine := by
  induction cs generalizing e with
  | nil => exact Keeps.refl
  | cons c cs ih =>
    rw [appendChars]
    split
    · exact (Keeps.emitAll rfl).trans (ih _)
    · exact Keeps.refl

/-- Building a string keeps the tree and the labels. -/
lemma keeps_string (body : String) (span : Span) : e.Keeps (e.string body span).engine := by
  simp only [string]
  split
  · exact (Keeps.emitAll rfl).trans (keeps_appendChars _ span _)
  · exact Keeps.refl

/-- Pushing the object keeps the tree and the labels. -/
lemma keeps_thisObject (span : Span) : e.Keeps (e.thisObject span) := by
  simp only [thisObject]
  split
  · exact (Keeps.note rfl).trans (Keeps.emit rfl)
  · exact Keeps.emit rfl

/-- Pushing the receiver of a call keeps the tree and the labels. -/
lemma keeps_receiver (callee : Callee) (span : Span) : e.Keeps (e.receiver callee span) := by
  rw [receiver]
  split
  · split
    · exact (Keeps.note rfl).trans (Keeps.emit rfl)
    · exact Keeps.emit rfl
  · exact Keeps.emit rfl
  · exact Keeps.refl

/-- Making a call keeps the tree and the labels. -/
lemma keeps_call (callee : Callee) (count : Nat) (span : Span) :
    e.Keeps (e.call callee count span).engine := by
  simp only [call]
  split
  · exact (Keeps.note rfl).trans (Keeps.emit rfl)
  · exact Keeps.refl

/-- All actions but those of branches and loops keep the tree and the labels. -/
lemma keeps_perform {a : Action} (h : a.Inert) : e.Keeps (e.perform a).engine := by
  cases a with
  | enterClass name =>
    have hn : e.Keeps (e.note (.enteredClass name)) := Keeps.note rfl
    exact ⟨rfl, rfl, rfl, hn.names⟩
  | declare name type kind span => exact e.keeps_declare name type kind span
  | enterSubroutine kind => exact e.keeps_enterSubroutine kind
  | enterBody kind name => exact e.keeps_enterBody kind name
  | missingReturn kind name span => exact Keeps.refl
  | implicitReturn name => exact (Keeps.note rfl).trans (Keeps.emitAll rfl)
  | emit i =>
    cases i with
    | label name => exact h.elim
    | _ => exact Keeps.emit rfl
  | integer value span => exact e.keeps_integer value span
  | string body span => exact e.keeps_string body span
  | thisObject span => exact e.keeps_thisObject span
  | require name span => exact e.keeps_withVariable name span fun _ => rfl
  | load name span => exact e.keeps_withVariable name span fun _ => rfl
  | store name span => exact e.keeps_withVariable name span fun _ => rfl
  | operate op => cases op <;> exact Keeps.emit rfl
  | branchTest => exact Keeps.emitAll rfl
  | loopTest => exact Keeps.emitAll rfl
  | receiver callee span => exact e.keeps_receiver callee span
  | countArgument count span =>
    simp only [perform]
    split <;> exact Keeps.refl
  | call callee count span => exact e.keeps_call callee count span
  | _ => exact h.elim

end Engine

end Jack
