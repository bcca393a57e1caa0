import Jack.Proofs.Compile.Translation
import Jack.Proofs.Vm.Execution
import Jack.Proofs.Vm.Labels

/-!
# Compiled statements do what they mean

Whenever the statements of a subroutine end, a run through their code ends alike: behind the code
with the same stack, or at a `return` with the value on top of it, and with the memory that the
statements leave.
-/

namespace Jack.Vm

open Grammar (Outcome Holds)

variable {w : World} {program : List Instruction}

/-- A run from `i` on ends as an outcome says: at `j` with the same stack, or before it at a
`return` that finds the value. -/
def Ends (w : World) (program : List Instruction) (i : Nat) (s : List Word) (μ : Memory) (j : Nat)
    (out : Outcome) (ν : Memory) : Prop :=
  match out with
  | .normal => Leads w program i s μ j s ν
  | .returned v =>
    ∃ k, i ≤ k ∧ k < j ∧ program[k]? = some .ret ∧ Leads w program i s μ k (v :: s) ν

namespace Ends

variable {i j k : Nat} {s : List Word} {μ ν ξ : Memory} {out : Outcome}

/-- What leads to where an end is reached reaches that end. -/
lemma after (h : Leads w program i s μ k s ν) (hk : i ≤ k) (h' : Ends w program k s ν j out ξ) :
    Ends w program i s μ j out ξ := by
  cases out with
  | normal => exact h.trans h'
  | returned v =>
    obtain ⟨l, hkl, hlj, hret, hl⟩ := h'
    exact ⟨l, Nat.le_trans hk hkl, hlj, hret, h.trans hl⟩

/-- An end that leads on is an end further on. -/
lemma before (h : Ends w program i s μ k out ν) (h' : Leads w program k s ν j s ν) (hk : k ≤ j) :
    Ends w program i s μ j out ν := by
  cases out with
  | normal => exact h.trans h'
  | returned v =>
    obtain ⟨l, hil, hlk, hret, hl⟩ := h
    exact ⟨l, hil, Nat.lt_of_lt_of_le hlk hk, hret, hl⟩

end Ends

/-- The code of a branch, given that of its condition and its arms. -/
def branchCode (name other : String) (cond yes no : List Instruction) : List Instruction :=
  cond ++ ([.arithmetic .not, .ifGoto name] ++ (yes ++ ([.goto other, .label name] ++ (no ++
    [.label other]))))

/-- The code of a loop, given that of its condition and its statements. -/
def loopCode (name other : String) (cond body : List Instruction) : List Instruction :=
  [.label name] ++ (cond ++ ([.arithmetic .not, .ifGoto other] ++ (body ++
    [.goto name, .label other])))

namespace Ends

variable {i : Nat} {s : List Word} {μ ν ξ ρ : Memory} {out : Outcome} {v r : Word}
  {cond yes no body : List Instruction} {name other : String}

/-- A branch whose condition holds runs its first arm and jumps over the second. -/
lemma branch_yes (hn : (labelNames program).Nodup)
    (hs : Sits program i (branchCode name other cond yes no))
    (hc : Executes w program cond s μ (v :: s) ν) (hv : Holds v)
    (hy : ∀ k, Sits program k yes → Ends w program k s ν (k + yes.length) out ξ) :
    Ends w program i s μ (i + (branchCode name other cond yes no).length) out ξ := by
  let k := i + cond.length + 2
  have htest : Sits program (i + cond.length) [.arithmetic .not, .ifGoto name] := hs.right.left
  have hyes : Sits program k yes := hs.right.right.left
  have hjump : program[k + yes.length]? = some (.goto other) := hs.right.right.right.head
  have hlast : program[k + yes.length + 2 + no.length]? = some (.label other) :=
    hs.right.right.right.right.right.head
  have hend : i + (branchCode name other cond yes no).length =
      k + yes.length + 2 + no.length + 1 := by
    simp [branchCode, k]
    omega
  -- Into the first arm, and from its end over the second one.
  have hin : Leads w program i s μ k s ν := (hc i hs.left).trans (.test_holds htest hv)
  have hout : Leads w program (k + yes.length) s ξ (k + yes.length + 2 + no.length + 1) s ξ :=
    (Leads.goto hjump (target?_eq_some hn hlast)).trans (.label hlast)
  rw [hend]
  exact .after hin (by omega) ((hy k hyes).before hout (by omega))

/-- A branch whose condition does not hold runs its second arm. -/
lemma branch_no (hn : (labelNames program).Nodup)
    (hs : Sits program i (branchCode name other cond yes no))
    (hc : Executes w program cond s μ (v :: s) ν) (hv : ¬ Holds v)
    (hno : ∀ k, Sits program k no → Ends w program k s ν (k + no.length) out ξ) :
    Ends w program i s μ (i + (branchCode name other cond yes no).length) out ξ := by
  let k := i + cond.length + 2 + yes.length + 1
  have htest : Sits program (i + cond.length) [.arithmetic .not, .ifGoto name] := hs.right.left
  have hfalse : program[k]? = some (.label name) := hs.right.right.right.tail.head
  have harm : Sits program (k + 1) no := hs.right.right.right.right.left
  have hlast : program[k + 1 + no.length]? = some (.label other) :=
    hs.right.right.right.right.right.head
  have hend : i + (branchCode name other cond yes no).length = k + 1 + no.length + 1 := by
    simp [branchCode, k]
    omega
  have hin : Leads w program i s μ (k + 1) s ν :=
    ((hc i hs.left).trans (.test_fails htest (target?_eq_some hn hfalse) hv)).trans
      (.label hfalse)
  rw [hend]
  exact .after hin (by omega) ((hno _ harm).before (.label hlast) (by omega))

/-- What a loop does up to its statements. -/
lemma loop_enter (hs : Sits program i (loopCode name other cond body))
    (hc : Executes w program cond s μ (v :: s) ν) (hv : Holds v) :
    Leads w program i s μ (i + 1 + cond.length + 2) s ν := by
  have htest : Sits program (i + 1 + cond.length) [.arithmetic .not, .ifGoto other] :=
    hs.right.right.left
  exact ((Leads.label hs.head).trans (hc _ hs.right.left)).trans (.test_holds htest hv)

/-- A loop whose condition does not hold is left. -/
lemma loop_done (hn : (labelNames program).Nodup)
    (hs : Sits program i (loopCode name other cond body))
    (hc : Executes w program cond s μ (v :: s) ν) (hv : ¬ Holds v) :
    Ends w program i s μ (i + (loopCode name other cond body).length) .normal ν := by
  let k := i + 1 + cond.length + 2 + body.length + 1
  have htest : Sits program (i + 1 + cond.length) [.arithmetic .not, .ifGoto other] :=
    hs.right.right.left
  have hlast : program[k]? = some (.label other) := hs.right.right.right.right.tail.head
  have hend : i + (loopCode name other cond body).length = k + 1 := by
    simp [loopCode, k]
    omega
  rw [hend]
  exact (((Leads.label hs.head).trans (hc _ hs.right.left)).trans
    (.test_fails htest (target?_eq_some hn hlast) hv)).trans (.label hlast)

/-- After its statements a loop starts again. -/
lemma loop_again (hn : (labelNames program).Nodup)
    (hs : Sits program i (loopCode name other cond body))
    (hc : Executes w program cond s μ (v :: s) ν) (hv : Holds v)
    (hb : ∀ k, Sits program k body → Ends w program k s ν (k + body.length) .normal ξ)
    (hl : Ends w program i s ξ (i + (loopCode name other cond body).length) out ρ) :
    Ends w program i s μ (i + (loopCode name other cond body).length) out ρ := by
  have hbody : Sits program (i + 1 + cond.length + 2) body := hs.right.right.right.left
  have hjump : program[i + 1 + cond.length + 2 + body.length]? = some (.goto name) :=
    hs.right.right.right.right.head
  -- One round comes back to the place where the loop starts, so the rest of the loop goes on
  -- from the same place with another memory.
  have hround : Leads w program i s μ i s ξ :=
    ((loop_enter hs hc hv).trans (hb _ hbody)).trans (.goto hjump (target?_eq_some hn hs.head))
  exact .after hround (Nat.le_refl i) hl

/-- A loop whose body returns ends with the value returned. -/
lemma loop_return (hs : Sits program i (loopCode name other cond body))
    (hc : Executes w program cond s μ (v :: s) ν) (hv : Holds v)
    (hb : ∀ k, Sits program k body → Ends w program k s ν (k + body.length) (.returned r) ξ) :
    Ends w program i s μ (i + (loopCode name other cond body).length) (.returned r) ξ := by
  have hbody : Sits program (i + 1 + cond.length + 2) body := hs.right.right.right.left
  obtain ⟨k, hik, hkj, hret, hk⟩ := hb _ hbody
  refine ⟨k, by omega, ?_, hret, (loop_enter hs hc hv).trans hk⟩
  simp [loopCode]
  omega

end Ends

end Jack.Vm

namespace Jack.Grammar

open Vm

variable {w : World} {program : List Instruction} {c : Context}

/-- The code of an `if` without `else` is that of a branch with an empty second arm. -/
lemma Statement.ifThen_code (condition : Expr) (yes : Statements) (n : Nat) :
    (Statement.ifThen condition yes).code c n =
      branchCode (Engine.branchFalse n) (Engine.branchEnd n) (condition.code c)
        (yes.code c (n + 1)) [] := by
  simp [Statement.code, branchCode]

/-- The code of an `if` with `else` is that of a branch with two arms. -/
lemma Statement.ifElse_code (condition : Expr) (yes no : Statements) (n : Nat) :
    (Statement.ifElse condition yes no).code c n =
      branchCode (Engine.branchFalse n) (Engine.branchEnd n) (condition.code c)
        (yes.code c (n + 1)) (no.code c (n + 1 + yes.labels)) := by
  simp [Statement.code, branchCode]

/-- The code of a `while` is that of a loop. -/
lemma Statement.loop_code (condition : Expr) (body : Statements) (n : Nat) :
    (Statement.loop condition body).code c n =
      loopCode (Engine.loopTop n) (Engine.loopEnd n) (condition.code c) (body.code c (n + 1)) := by
  simp [Statement.code, loopCode]

mutual

/-- The code of a statement ends as the statement does. The labels of the whole program have to be
different, so that jumps stay inside. -/
lemma Statement.Runs.ends (hn : (labelNames program).Nodup) :
    ∀ {x : Statement} {μ ν : Memory} {out : Outcome}, x.Runs w c μ out ν →
    ∀ (s : List Word) (i n : Nat), x.Valid c → Sits program i (x.code c n) →
      Ends w program i s μ (i + (x.code c n).length) out ν
  | _, _, _, _, .assign he => by
    intro s i n hv hs
    exact (((Expr.executes _ hv.2 _).of_eval he).append (Context.executes_store hv.1 _ _)) i hs
  | _, _, _, _, .assignElement hi he => by
    intro s i n hv hs
    exact ((((((Expr.executes _ hv.2.1 _).of_eval hi).append (Context.executes_load hv.1 _)).append
      (.binary rfl _ _)).append ((Expr.executes _ hv.2.2 _).of_eval he)).append
      (executes_writeElement _ _ _)) i hs
  | _, _, _, _, .thenYes he hc hy => by
    intro s i n hv hs
    rw [Statement.ifThen_code] at hs ⊢
    exact .branch_yes hn hs ((Expr.executes _ hv.1 _).of_eval he) hc
      fun k hk => Statements.Runs.ends hn hy s k _ hv.2 hk
  | _, _, _, _, .thenNo he hc => by
    intro s i n hv hs
    rw [Statement.ifThen_code] at hs ⊢
    exact .branch_no hn hs ((Expr.executes _ hv.1 _).of_eval he) hc fun k hk => Leads.refl
  | _, _, _, _, .elseYes he hc hy => by
    intro s i n hv hs
    rw [Statement.ifElse_code] at hs ⊢
    exact .branch_yes hn hs ((Expr.executes _ hv.1 _).of_eval he) hc
      fun k hk => Statements.Runs.ends hn hy s k _ hv.2.1 hk
  | _, _, _, _, .elseNo he hc hno => by
    intro s i n hv hs
    rw [Statement.ifElse_code] at hs ⊢
    exact .branch_no hn hs ((Expr.executes _ hv.1 _).of_eval he) hc
      fun k hk => Statements.Runs.ends hn hno s k _ hv.2.2 hk
  | _, _, _, _, .loopDone he hc => by
    intro s i n hv hs
    rw [Statement.loop_code] at hs ⊢
    exact .loop_done hn hs ((Expr.executes _ hv.1 _).of_eval he) hc
  | _, _, _, _, .loopAgain he hc hb hl => by
    intro s i n hv hs
    -- The induction is on the derivation of the run: the rest of a loop is the same statement.
    have hagain := Statement.Runs.ends hn hl s i n hv hs
    rw [Statement.loop_code] at hs hagain ⊢
    exact .loop_again hn hs ((Expr.executes _ hv.1 _).of_eval he) hc
      (fun k hk => Statements.Runs.ends hn hb s k _ hv.2 hk) hagain
  | _, _, _, _, .loopReturn he hc hb => by
    intro s i n hv hs
    rw [Statement.loop_code] at hs ⊢
    exact .loop_return hs ((Expr.executes _ hv.1 _).of_eval he) hc
      fun k hk => Statements.Runs.ends hn hb s k _ hv.2 hk
  | _, _, _, _, @Statement.Runs.invoke _ _ callee args _ _ _ he => by
    intro s i n hv hs
    -- A call as a statement is a call as a term whose value is dropped.
    have hc : (Term.call callee args).Valid c := hv
    exact (((Term.executes _ hc _).of_eval he).append (.discard _)) i hs
  | _, _, _, _, @Statement.Runs.giveBack _ _ value _ _ _ he => by
    intro s i n hv hs
    refine ⟨i + (valueCode c value).length, by omega, ?_, hs.right.head,
      (executes_valueCode value hv _).of_eval he i hs.left⟩
    simp [Statement.code]

/-- Where the code of statements sits, a run of the statements is a run of the machine. -/
lemma Statements.Runs.ends (hn : (labelNames program).Nodup) :
    ∀ {x : Statements} {μ ν : Memory} {out : Outcome}, x.Runs w c μ out ν →
    ∀ (s : List Word) (i n : Nat), x.Valid c → Sits program i (x.code c n) →
      Ends w program i s μ (i + (x.code c n).length) out ν
  | _, _, _, _, .nil => by
    intro s i n _ _
    exact Leads.refl
  | _, _, _, _, .cons hf hr => by
    intro s i n hv hs
    have hrest := Statements.Runs.ends hn hr s _ _ hv.2 hs.right
    rw [Statements.code, List.length_append, ← Nat.add_assoc]
    exact .after (Statement.Runs.ends hn hf s i n hv.1 hs.left) (by omega) hrest
  | _, _, _, _, .stop hf => by
    intro s i n hv hs
    obtain ⟨k, hik, hkj, hret, hk⟩ := Statement.Runs.ends hn hf s i n hv.1 hs.left
    refine ⟨k, hik, ?_, hret, hk⟩
    rw [Statements.code, List.length_append]
    omega

end

/-! ## Subroutines -/

/-- The code of subroutines in two parts counts the labels of the first on to the second. -/
lemma ClassDec.codeFrom_append (o : Options) (k : ClassDec) (ss ts : List Subroutine) (n : Nat) :
    k.codeFrom o n (ss ++ ts) = k.codeFrom o n ss ++ k.codeFrom o (n + labelsOf ss) ts := by
  induction ss generalizing n with
  | nil => rfl
  | cons s ss ih =>
    have hl : n + s.body.labels + labelsOf ss = n + labelsOf (s :: ss) := by
      simp [labelsOf, Nat.add_assoc]
    simp only [List.cons_append, ClassDec.codeFrom, ih, hl, List.append_assoc]

/-- Where the statements of a subroutine start in the code of its class. -/
def ClassDec.bodyStart (o : Options) (k : ClassDec) (earlier : List Subroutine) (s : Subroutine) :
    Nat :=
  (k.codeFrom o 0 earlier ++ s.head o k).length

/-- The code of the body of a subroutine, behind those of earlier subroutines. -/
def ClassDec.bodyCode (o : Options) (k : ClassDec) (earlier : List Subroutine) (s : Subroutine) :
    List Instruction :=
  s.body.code (s.context o k) (labelsOf earlier)

/-- The code of a body sits in the code of the class, behind the head of its subroutine. -/
lemma ClassDec.sits_bodyCode (o : Options) {k : ClassDec} {earlier later : List Subroutine}
    {s : Subroutine} (h : k.subroutines = earlier ++ s :: later) :
    Sits (k.code o) (k.bodyStart o earlier s) (k.bodyCode o earlier s) := by
  refine ⟨k.codeFrom o 0 earlier ++ s.head o k,
    s.closing ++ k.codeFrom o (labelsOf earlier + s.body.labels) later, ?_, rfl⟩
  simp [ClassDec.code, h, codeFrom_append, codeFrom, Subroutine.code, bodyCode]

end Jack.Grammar

namespace Jack

open Grammar Vm

/-- The statements of every subroutine of a compiled class do what they mean. Where they end
normally, a run through their code gets behind it with the same stack; where they return a value, it
gets to a `return` inside the code with the value on top. In both cases it leaves the memory that
the statements leave. -/
theorem body_preserved_of_produced (o : Options) (tokens : List Token)
    (h : ∃ name, (Engine.start o tokens).compileClass.1 = .ok name) :
    ∃ c : ClassDec, c.yield = (tokens.map Token.kind).takeWhile (· ≠ .eof) ∧
      ∀ (earlier later : List Subroutine) (s : Subroutine),
        c.subroutines = earlier ++ s :: later →
        let program := (Engine.start o tokens).compileClass.2.code
        let start := c.bodyStart o earlier s
        let stop := start + (c.bodyCode o earlier s).length
        Sits program start (c.bodyCode o earlier s) ∧
        ∀ (w : World) (stack : List Word) (μ ν : Memory),
          (s.body.Runs w (s.context o c) μ .normal ν →
            Leads w program start stack μ stop stack ν) ∧
          ∀ v : Word, s.body.Runs w (s.context o c) μ (.returned v) ν →
            ∃ k, start ≤ k ∧ k < stop ∧ program[k]? = some .ret ∧
              Leads w program start stack μ k (v :: stack) ν := by
  obtain ⟨c, hc⟩ := Compiles.exists_derives h
  obtain ⟨hiff, hcode⟩ := hc.compiles_iff (o := o)
  have hw := hiff.1 h
  have hp : (Engine.start o tokens).compileClass.2.code = c.code o := hcode hw
  refine ⟨c, hc, ?_⟩
  intro earlier later s hs
  -- Labels are different in the whole class, so every jump of the body finds its own.
  have hn := c.nodup_labelNames o
  have hbody : s.body.Valid (s.context o c) :=
    (hw.subroutines s (by simp [hs])).body
  have hsits := ClassDec.sits_bodyCode o hs
  rw [hp]
  refine ⟨hsits, ?_⟩
  intro w stack μ ν
  constructor
  · intro hr
    exact Statements.Runs.ends hn hr stack _ _ hbody hsits
  · intro v hr
    exact Statements.Runs.ends hn hr stack _ _ hbody hsits

/-- A world of signed words whose subroutines return zero and change nothing. -/
def idleWorld : World := ⟨true, fun _ _ statics heap => (0, statics, heap), fun _ m => m.temp 0⟩

/-- A memory whose first argument is `x`, and all else zero. -/
def argumentMemory (x : Word) : Memory :=
  ⟨fun _ => 0, Function.update (fun _ => 0) 0 x, fun _ => 0, fun _ => 0, 0⟩

/-- The one subroutine of the class that computes absolute values. -/
def absoluteBody : Subroutine := absolute.subroutines.head (by decide)

/-- Its body returns five for minus five, and has then changed its argument. -/
lemma absolute_runs : ∃ ν, ν.arguments 0 = 5 ∧
    absoluteBody.body.Runs idleWorld (absoluteBody.context {} absolute) (argumentMemory (-5))
      (.returned 5) ν :=
  ⟨_, rfl, .cons (.thenYes rfl rfl (.cons (.assign rfl) .nil)) (.stop (.giveBack rfl))⟩

/-- The code of that class gets from the argument minus five to a return with five. -/
theorem body_preserved_absolute :
    ∃ (k : Nat) (ν : Memory),
      (Engine.start {} absolute.tokens).compileClass.2.code[k]? = some .ret ∧
      ν.arguments 0 = 5 ∧
      Leads idleWorld (Engine.start {} absolute.tokens).compileClass.2.code 1 []
        (argumentMemory (-5)) k [5] ν := by
  obtain ⟨c, hy, hc⟩ := body_preserved_of_produced {} absolute.tokens compiles_absolute
  obtain rfl := ClassDec.yield_injective (hy.trans absolute.derives_tokens.symm)
  obtain ⟨-, hrun⟩ := hc [] [] absoluteBody rfl
  obtain ⟨ν, hν, hr⟩ := absolute_runs
  obtain ⟨k, -, -, hret, hk⟩ := (hrun idleWorld [] (argumentMemory (-5)) ν).2 5 hr
  exact ⟨k, ν, hret, hν, hk⟩

end Jack
