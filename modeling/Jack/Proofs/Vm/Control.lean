import Jack.Proofs.Vm.Execution
import Jack.Proofs.Vm.Labels
import Jack.Proofs.Vm.Segments
import Mathlib.Data.List.Nodup

/-!
# The control flow of compiled code

The code of a class is cut into blocks, one for each subroutine. A block starts with the only
`function` in it and ends with a `return`, and its jumps go to labels of its own. So a run that is
in a block stays in it: one step leads to the next instruction or to the label of a jump, and behind
the last instruction of a block no step leads.
-/

namespace Jack.Vm

variable {w : World} {program block : List Instruction} {m m' : Machine}

/-- A name is jumped to by a `goto` or an `if-goto`. -/
lemma mem_jumpNames {name : String} :
    name ∈ jumpNames block ↔ .goto name ∈ block ∨ .ifGoto name ∈ block := by
  rw [jumpNames, List.mem_filterMap]
  constructor
  · rintro ⟨i, hi, hn⟩
    cases i with
    | goto name' =>
      cases hn
      exact .inl hi
    | ifGoto name' =>
      cases hn
      exact .inr hi
    | _ => cases hn
  · rintro (hi | hi)
    · exact ⟨_, hi, rfl⟩
    · exact ⟨_, hi, rfl⟩

/-- A name is that of a label that stands in the block. -/
lemma mem_labelNames {name : String} : name ∈ labelNames block ↔ .label name ∈ block := by
  rw [labelNames, List.mem_filterMap]
  constructor
  · rintro ⟨i, hi, hn⟩
    cases i with
    | label name' =>
      cases hn
      exact hi
    | _ => cases hn
  · intro hi
    exact ⟨_, hi, rfl⟩

/-- Writing a word does not jump. -/
lemma pc_of_write? {s : Segment} {i v : Word} (h : m.write? s i v = some m') : m'.pc = m.pc := by
  cases s with
  | constant => cases h
  | pointer =>
    simp only [Machine.write?] at h
    split at h
    · cases h
      rfl
    · split at h
      · cases h
        rfl
      · cases h
  | _ =>
    cases h
    rfl

/-- One instruction leads to the next one, or to the label that a jump names; a return leads
nowhere. -/
lemma pc_of_exec? {i : Instruction} (h : exec? w program m i = some m') :
    (m'.pc = m.pc + 1 ∧ i ≠ .ret) ∨
      ∃ name, (i = .goto name ∨ i = .ifGoto name) ∧ target? program name = some m'.pc := by
  cases i with
  | push s i =>
    obtain ⟨v, -, rfl⟩ := Option.map_eq_some_iff.1 h
    exact .inl ⟨rfl, by simp⟩
  | pop s i =>
    simp only [exec?] at h
    split at h
    · exact .inl ⟨pc_of_write? h, by simp⟩
    · cases h
  | arithmetic op =>
    simp only [exec?] at h
    split at h
    · cases h
      exact .inl ⟨rfl, by simp⟩
    · cases h
      exact .inl ⟨rfl, by simp⟩
    · cases h
  | label name =>
    cases h
    exact .inl ⟨rfl, by simp⟩
  | goto name =>
    obtain ⟨k, hk, rfl⟩ := Option.map_eq_some_iff.1 h
    exact .inr ⟨name, .inl rfl, hk⟩
  | ifGoto name =>
    simp only [exec?] at h
    split at h
    · split at h
      · obtain ⟨k, hk, rfl⟩ := Option.map_eq_some_iff.1 h
        exact .inr ⟨name, .inr rfl, hk⟩
      · cases h
        exact .inl ⟨rfl, by simp⟩
    · cases h
  | call name n =>
    simp only [exec?] at h
    split at h
    · cases h
      exact .inl ⟨rfl, by simp⟩
    · cases h
  | function name locals => cases h
  | ret => cases h

/-- A block of a program that is entered at its head and left by a return only. -/
structure ClosedBlock (program : List Instruction) (name : String) (block : List Instruction) :
    Prop where
  /-- The first instruction is the only `function`. -/
  head : ∃ locals body, block = .function name locals :: body ∧ ∀ other n, .function other n ∉ body
  last : block.getLast? = some .ret
  /-- A jump names a label of the block, which the program defines once. -/
  jumps : ∀ target, .goto target ∈ block ∨ .ifGoto target ∈ block →
    .label target ∈ block ∧ (labelNames program).count target = 1

/-- A place of a program is in the block that stands from `start` on. -/
def InBlock (start : Nat) (block : List Instruction) (k : Nat) : Prop :=
  start ≤ k ∧ k < start + block.length

/-- Inside a block stand the instructions of the block. -/
lemma Sits.getElem? {start k : Nat} (h : Sits program start block) (hk : InBlock start block k) :
    program[k]? = block[k - start]? := by
  obtain ⟨before, after, rfl, rfl⟩ := h
  obtain ⟨hle, hlt⟩ := hk
  rw [List.getElem?_append_right hle, List.getElem?_append_left (by omega)]

/-- Every instruction of a block stands somewhere inside it. -/
lemma Sits.exists_place {start : Nat} {i : Instruction} (h : Sits program start block)
    (hi : i ∈ block) : ∃ k, InBlock start block k ∧ program[k]? = some i := by
  obtain ⟨j, hj⟩ := List.mem_iff_getElem?.1 hi
  have hlt : j < block.length := (List.getElem?_eq_some_iff.1 hj).1
  have hb : InBlock start block (start + j) := ⟨Nat.le_add_right _ _, Nat.add_lt_add_left hlt _⟩
  refine ⟨start + j, hb, ?_⟩
  rw [h.getElem? hb, Nat.add_sub_cancel_left, hj]

namespace ClosedBlock

variable {name : String} {start : Nat}

/-- One step stays in a block. -/
lemma step (h : ClosedBlock program name block) (hs : Sits program start block)
    (hn : (labelNames program).Nodup) (hm : InBlock start block m.pc)
    (hstep : step? w program m = some m') : InBlock start block m'.pc := by
  obtain ⟨i, hi, he⟩ := Option.bind_eq_some_iff.1 hstep
  rw [hs.getElem? hm] at hi
  obtain ⟨hle, hlt⟩ := hm
  obtain ⟨hpc, hret⟩ | ⟨target, hj, ht⟩ := pc_of_exec? he
  · -- The last instruction of the block is a return, so there is one behind this one.
    have hlast : m.pc + 1 ≠ start + block.length := by
      intro hend
      have hl := h.last
      rw [List.getLast?_eq_getElem?, show block.length - 1 = m.pc - start by omega, hi] at hl
      exact hret (Option.some.inj hl)
    rw [hpc]
    exact ⟨by omega, by omega⟩
  · have hmem := List.mem_of_getElem? hi
    have hj' : .goto target ∈ block ∨ .ifGoto target ∈ block := by
      obtain rfl | rfl := hj
      · exact .inl hmem
      · exact .inr hmem
    obtain ⟨k, hk, hl⟩ := hs.exists_place (h.jumps target hj').1
    rw [target?_eq_some hn hl] at ht
    rwa [← Option.some.inj ht]

/-- A run stays in a block. -/
lemma reaches (h : ClosedBlock program name block) (hs : Sits program start block)
    (hn : (labelNames program).Nodup) (hr : Reaches w program m m')
    (hm : InBlock start block m.pc) : InBlock start block m'.pc := by
  induction hr with
  | refl m => exact hm
  | head hstep _ ih => exact ih (h.step hs hn hm hstep)

end ClosedBlock

/-- One of several blocks sits behind those before it. -/
lemma sits_flatten {before after : List (List Instruction)} :
    Sits (before ++ block :: after).flatten before.flatten.length block :=
  ⟨before.flatten, after.flatten, by simp, rfl⟩

end Jack.Vm

namespace Jack.Grammar

open Vm

variable {c : Context}

/-! ## Jumps -/

mutual

/-- The jumps of a statement go to its own labels. -/
lemma Statement.jumps_subset (s : Statement) (n : Nat) :
    jumpNames (s.code c n) ⊆ labelNames (s.code c n) := by
  cases s with
  | assign name value => simp [(Statement.straight_assign name value n).jumpNames_eq]
  | assignElement name index value =>
    simp [(Statement.straight_assignElement name index value n).jumpNames_eq]
  | ifThen condition yes =>
    have hy := Statements.jumps_subset yes (n + 1)
    have hj : jumpNames ((Statement.ifThen condition yes).code c n) =
        [Engine.branchFalse n] ++ jumpNames (yes.code c (n + 1)) ++ [Engine.branchEnd n] ++ [] := by
      simp only [Statement.code, jumpNames_append, condition.straight_code.jumpNames_eq]
      rfl
    rw [hj, Statement.labelNames_ifThen]
    grind
  | ifElse condition yes no =>
    have hy := Statements.jumps_subset yes (n + 1)
    have hn := Statements.jumps_subset no (n + 1 + yes.labels)
    have hj : jumpNames ((Statement.ifElse condition yes no).code c n) =
        [Engine.branchFalse n] ++ jumpNames (yes.code c (n + 1)) ++ [Engine.branchEnd n] ++
          jumpNames (no.code c (n + 1 + yes.labels)) ++ [] := by
      simp only [Statement.code, jumpNames_append, condition.straight_code.jumpNames_eq]
      rfl
    rw [hj, Statement.labelNames_ifElse]
    grind
  | loop condition body =>
    have hb := Statements.jumps_subset body (n + 1)
    -- The jump back and the jump out name the two labels of the loop.
    have hj : jumpNames ((Statement.loop condition body).code c n) =
        [Engine.loopEnd n] ++ jumpNames (body.code c (n + 1)) ++ [Engine.loopTop n] := by
      simp only [Statement.code, jumpNames_append, condition.straight_code.jumpNames_eq]
      rfl
    rw [hj, Statement.labelNames_loop]
    grind
  | invoke callee args => simp [(Statement.straight_invoke callee args n).jumpNames_eq]
  | giveBack value =>
    have hj : jumpNames ((Statement.giveBack value).code c n) = [] := by
      simp only [Statement.code, jumpNames_append, (straight_valueCode value).jumpNames_eq]
      rfl
    simp [hj]

/-- Statements jump to their own labels only. -/
lemma Statements.jumps_subset (ss : Statements) (n : Nat) :
    jumpNames (ss.code c n) ⊆ labelNames (ss.code c n) := by
  cases ss with
  | nil => exact List.Subset.refl []
  | cons first rest =>
    have hf := Statement.jumps_subset first n
    have hr := Statements.jumps_subset rest (n + first.labels)
    rw [Statements.code, jumpNames_append, labelNames_append]
    grind

end

/-! ## Returns -/

/-- A statement that is a return gives back some value. -/
lemma Statement.eq_giveBack_of_isReturn {s : Statement} (h : s.isReturn = true) :
    ∃ value, s = .giveBack value := by
  cases s with
  | giveBack value => exact ⟨value, rfl⟩
  | _ => cases h

/-- Statements of which the last is a return have code that ends with one. -/
lemma Statements.exists_code_of_returnsAfter (ss : Statements) {before : Bool}
    (h : ss.returnsAfter before = true) (n : Nat) :
    (ss = .nil ∧ before = true) ∨ ∃ is, ss.code c n = is ++ [.ret] := by
  cases ss with
  | nil => exact .inl ⟨rfl, h⟩
  | cons first rest =>
    refine .inr ?_
    obtain ⟨rfl, hf⟩ | ⟨is, hr⟩ := rest.exists_code_of_returnsAfter h (n + first.labels)
    · obtain ⟨value, rfl⟩ := Statement.eq_giveBack_of_isReturn hf
      exact ⟨valueCode c value, by simp [Statements.code, Statement.code]⟩
    · exact ⟨first.code c n ++ is, by simp [Statements.code, hr]⟩

namespace Subroutine

variable {o : Options} {k : ClassDec} {s : Subroutine}

/-- A well-formed subroutine ends with `return`. -/
lemma WellFormed.getLast?_code (h : s.WellFormed o k) (n : Nat) :
    (s.code o k n).getLast? = some .ret := by
  rw [code, closing]
  split
  · simp
  · next hc =>
    have hr : s.body.endsInReturn = true := by
      by_cases hk : s.kind = .constructor
      · simpa [hk] using hc
      · exact h.returns hk
    obtain ⟨-, hb⟩ | ⟨is, hb⟩ :=
      s.body.exists_code_of_returnsAfter (c := s.context o k) hr n
    · cases hb
    · simp [hb]

/-- A subroutine jumps to its own labels only. -/
lemma jumps_subset (o : Options) (k : ClassDec) (s : Subroutine) (n : Nat) :
    jumpNames (s.code o k n) ⊆ labelNames (s.code o k n) := by
  have hh : jumpNames (s.head o k) = [] := by
    rw [head, prologue]
    cases s.kind <;> rfl
  have hc : jumpNames s.closing = [] := by
    rw [closing]
    split <;> rfl
  have hb := s.body.jumps_subset (c := s.context o k) n
  rw [code, jumpNames_append, jumpNames_append, hh, hc, labelNames_append, labelNames_append]
  grind

/-- The block of a subroutine is closed in a program that has it and no label twice. -/
lemma WellFormed.closedBlock (hk : ∀ kind, Variable.count kind k.declared ≤ maxWord)
    (h : s.WellFormed o k) {program : List Instruction} (hn : (labelNames program).Nodup) (n : Nat)
    (hs : s.code o k n ⊆ program) :
    ClosedBlock program (k.name ++ "." ++ s.name) (s.code o k n) where
  head := by
    obtain ⟨locals, body, hc, hr⟩ := h.inRange hk n
    exact ⟨locals, body, hc, hr.noFunction⟩
  last := h.getLast?_code n
  jumps := by
    intro target ht
    have hl := mem_labelNames.1 (s.jumps_subset o k n (mem_jumpNames.2 ht))
    refine ⟨hl, List.count_eq_one_of_mem hn ?_⟩
    exact mem_labelNames.2 (hs hl)

end Subroutine

end Jack.Grammar

namespace Jack

open Grammar Vm

/-- The code of a class that compiles is made of one block for each subroutine. Each of them is
closed: a run that is in a block never gets out of it. -/
theorem control_flow_closed (o : Options) (tokens : List Token)
    (h : ∃ name, (Engine.start o tokens).compileClass.1 = .ok name) :
    ∃ (c : ClassDec) (blocks : List (List Instruction)),
      let program := (Engine.start o tokens).compileClass.2.code
      c.yield = (tokens.map Token.kind).takeWhile (· ≠ .eof) ∧
      program = blocks.flatten ∧
      List.Forall₂ (fun (s : Subroutine) block =>
        ClosedBlock program (c.name ++ "." ++ s.name) block) c.subroutines blocks ∧
      ∀ before block after, blocks = before ++ block :: after →
        ∀ (w : World) (m m' : Machine), Reaches w program m m' →
          InBlock before.flatten.length block m.pc →
          InBlock before.flatten.length block m'.pc := by
  obtain ⟨c, hc⟩ := Compiles.exists_derives h
  obtain ⟨hiff, hcode⟩ := hc.compiles_iff (o := o)
  have hw := hiff.1 h
  obtain ⟨blocks, hf, hb⟩ := c.exists_blocks o c.subroutines 0
  have hp : (Engine.start o tokens).compileClass.2.code = blocks.flatten := (hcode hw).trans hf
  have hn : (labelNames blocks.flatten).Nodup := by
    rw [← hf]
    exact c.nodup_labelNames o
  have hclosed : List.Forall₂ (fun (s : Subroutine) block =>
      ClosedBlock blocks.flatten (c.name ++ "." ++ s.name) block) c.subroutines blocks := by
    obtain ⟨hlength, hzip⟩ := List.forall₂_iff_zip.1 hb
    refine List.forall₂_iff_zip.2 ⟨hlength, ?_⟩
    intro s block hm
    obtain ⟨n, rfl⟩ := hzip hm
    obtain ⟨hs, hblock⟩ := List.of_mem_zip hm
    exact (hw.subroutines s hs).closedBlock hw.few hn n fun i => List.mem_flatten_of_mem hblock
  refine ⟨c, blocks, hc, hp, ?_, ?_⟩
  · rw [hp]
    exact hclosed
  · rintro before block after rfl w m m' hr hm
    rw [hp] at hr
    -- The blocks match the subroutines, and this one is the first behind those before it.
    have hrest := List.forall₂_drop_append _ before (block :: after) hclosed
    generalize List.drop before.length c.subroutines = later at hrest
    cases hrest with
    | cons hblock _ => exact hblock.reaches sits_flatten hn hr hm

/-- The class
```
class Pace {
  function int down(int n) { while (n > 0) { let n = n - 1; } return n; }
  function int clip(int n) { if (n < 0) { return 0; } else { let n = Pace.down(n); } return n; }
}
```
with a loop in one subroutine and a branch in the other. -/
def pace : ClassDec where
  name := "Pace"
  vars := []
  subroutines :=
    [{ kind := .function
       result := some .int
       name := "down"
       params := [⟨.int, "n"⟩]
       locals := []
       body :=
        .cons (.loop (.mk (.var "n") (.cons .greater (.integer 0) .nil))
          (.cons (.assign "n" (.mk (.var "n") (.cons .minus (.integer 1) .nil))) .nil))
        (.cons (.giveBack (some (.mk (.var "n") .nil))) .nil) },
     { kind := .function
       result := some .int
       name := "clip"
       params := [⟨.int, "n"⟩]
       locals := []
       body :=
        .cons (.ifElse (.mk (.var "n") (.cons .less (.integer 0) .nil))
          (.cons (.giveBack (some (.mk (.integer 0) .nil))) .nil)
          (.cons (.assign "n" (.mk
            (.call (.member "Pace" "down") (.cons (.mk (.var "n") .nil) .nil)) .nil)) .nil))
        (.cons (.giveBack (some (.mk (.var "n") .nil))) .nil) }]

/-- The two subroutines of that class are closed blocks, and the first is not left. -/
theorem control_flow_closed_pace :
    ∃ down clip, (Engine.start {} pace.tokens).compileClass.2.code = down ++ clip ∧
      ClosedBlock (down ++ clip) "Pace.down" down ∧ ClosedBlock (down ++ clip) "Pace.clip" clip ∧
      ∀ (w : World) (m m' : Machine), Reaches w (down ++ clip) m m' →
        InBlock 0 down m.pc → InBlock 0 down m'.pc := by
  have hp : Compiles {} pace.tokens := pace.derives_tokens.compiles_iff.1.2 (by decide)
  obtain ⟨c, blocks, hy, hcode, hb, hr⟩ := control_flow_closed {} pace.tokens hp
  obtain rfl := ClassDec.yield_injective (hy.trans pace.derives_tokens.symm)
  obtain _ | @⟨_, down, _, _, hdown, hb⟩ := hb
  obtain _ | @⟨_, clip, _, _, hclip, hb⟩ := hb
  cases hb
  have hflat : [down, clip].flatten = down ++ clip := by simp
  rw [hflat] at hcode
  rw [hcode] at hdown hclip hr
  exact ⟨down, clip, hcode, hdown, hclip, hr [] down [clip] rfl⟩

end Jack
