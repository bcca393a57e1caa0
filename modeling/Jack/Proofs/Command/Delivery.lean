import Jack.Proofs.Command.World
import Mathlib.Data.List.Perm.Basic

/-!
# What delivering outcomes does

An outcome that is delivered leaves files, a standard output and what is said about it. None of this
depends on what has been said before, so the deliveries of a list of outcomes are one list
(`deliveries`), whether the lines that the inputs log come before all of them or each before its own
(`run_deliverAll`, `run_oneByOne`).
-/

namespace Jack.Command

open Text

variable {σ : Type} [Sink σ]

/-! ## One outcome -/

/-- A result for an input cannot be written into the directory for the results, or the standard
output does not take it, as the world is now. -/
def Unwritten (s : Settings) (now : World σ) (path : Path) (text : String) : Prop :=
  s.check = false ∧ ∃ e,
    match s.outDir with
    | some dir =>
      (now.tree.makeDirs dir).1 = .error e ∨
      (now.tree.makeDirs dir).1 = .ok () ∧
        ((now.tree.makeDirs dir).2.write (target s dir path) (Utf8.bytes text)).1 = .error e
    | none =>
      if s.output = .vm then
        (Sink.put now.stdout (header path)).1 = .error e ∨
        (Sink.put now.stdout (header path)).1 = .ok () ∧
          (Sink.put (Sink.put now.stdout (header path)).2 text).1 = .error e
      else (Sink.put now.stdout text).1 = .error e

/-- An outcome that is a failure, or whose result cannot be written. -/
def Outcome.Lost (s : Settings) (now : World σ) (o : Outcome) : Prop :=
  match o.result with
  | .error _ => True
  | .ok text => Unwritten s now o.path text

section
variable (s : Settings) (limit : Option Level) (w : World σ)

/-- Into a directory, a result is emitted by making the directory, writing the file and logging
that. -/
lemma run_emit_dir {dir : Path} (hd : s.outDir = some dir) (path : Path) (text : String) :
    w.run (emit s limit path text).run =
      match w.tree.makeDirs dir with
      | (.error e, made) => (.error e, { w with tree := made })
      | (.ok _, made) =>
        match made.write (target s dir path) (Utf8.bytes text) with
        | (.error e, after) => (.error e, { w with tree := after })
        | (.ok _, after) =>
          (.ok (), ({ w with tree := after } : World σ).logged
            (kept limit [⟨.info, "wrote " ++ (target s dir path).display⟩])) := by
  -- Each operation leaves the tree it comes to, also where it fails.
  have hmake : w.run (Host.makeDirs dir).run =
      ((w.tree.makeDirs dir).1, { w with tree := (w.tree.makeDirs dir).2 }) := rfl
  simp only [emit, hd, World.run_bind_except, hmake]
  obtain ⟨e | ⟨⟩, made⟩ := w.tree.makeDirs dir
  · rfl
  · have hwrite (w : World σ) (bytes : List UInt8) :
        w.run (Host.write (target s dir path) bytes).run =
          ((w.tree.write (target s dir path) bytes).1,
            { w with tree := (w.tree.write (target s dir path) bytes).2 }) := rfl
    simp only [hwrite]
    obtain ⟨e | ⟨⟩, after⟩ := made.write (target s dir path) (Utf8.bytes text)
    · rfl
    · simp only [ExceptT.run_lift, World.run_map, World.run_logAll]

/-- Without a directory, a result is printed, a program behind its comment. -/
lemma run_emit_print (hd : s.outDir = none) (path : Path) (text : String) :
    w.run (emit s limit path text).run =
      if s.output = .vm then
        match Sink.put w.stdout (header path) with
        | (.error e, out) => (.error e, { w with stdout := out })
        | (.ok _, out) => ((Sink.put out text).1, { w with stdout := (Sink.put out text).2 })
      else ((Sink.put w.stdout text).1, { w with stdout := (Sink.put w.stdout text).2 }) := by
  have hprint (w : World σ) (text : String) :
      w.run (Host.print text).run =
        ((Sink.put w.stdout text).1, { w with stdout := (Sink.put w.stdout text).2 }) := rfl
  simp only [emit, hd]
  split
  · simp only [World.run_bind_except, hprint]
    obtain ⟨e | ⟨⟩, out⟩ := Sink.put w.stdout (header path)
    · rfl
    · rfl
  · exact hprint w text

/-- Emitting fails exactly if the result cannot be written. -/
lemma emit_error_iff (hc : s.check = false) (path : Path) (text : String) :
    (∃ e, (w.run (emit s limit path text).run).1 = .error e) ↔ Unwritten s w path text := by
  unfold Unwritten
  simp only [hc, true_and]
  cases hd : s.outDir with
  | some dir =>
    rw [run_emit_dir s limit w hd]
    dsimp only
    generalize w.tree.makeDirs dir = made
    obtain ⟨e | ⟨⟩, made⟩ := made
    · simp
    · dsimp only
      generalize made.write (target s dir path) (Utf8.bytes text) = written
      obtain ⟨e | ⟨⟩, after⟩ := written
      · simp
      · simp
  | none =>
    rw [run_emit_print s limit w hd]
    split
    · generalize Sink.put w.stdout (header path) = taken
      obtain ⟨e | ⟨⟩, out⟩ := taken
      · simp
      · simp
    · rfl

/-- A failed outcome is only reported. -/
lemma run_deliver_error {o : Outcome} {message : String} (ho : o.result = .error message) :
    w.run (deliver s limit o) =
      (true, { w with
        notices := w.notices.push (.message (o.path.display ++ ": " ++ message)) }) := by
  simp only [deliver, ho]
  rfl

/-- A result that is only checked leaves a line in the log. -/
lemma run_deliver_check (hc : s.check = true) {o : Outcome} {text : String}
    (ho : o.result = .ok text) :
    w.run (deliver s limit o) =
      (false, w.logged (kept limit [⟨.info, o.path.display ++ ": ok"⟩])) := by
  simp only [deliver, ho, hc, if_true, World.run_bind, World.run_logAll]
  rfl

/-- A result is emitted, and reported if that fails. -/
lemma run_deliver_emit (hc : s.check = false) {o : Outcome} {text : String}
    (ho : o.result = .ok text) :
    w.run (deliver s limit o) =
      match w.run (emit s limit o.path text).run with
      | (.ok _, after) => (false, after)
      | (.error e, after) =>
        (true, { after with
          notices := after.notices.push (.message
            ("Error writing output for '" ++ o.path.display ++ "': " ++ e.message)) }) := by
  simp only [deliver, ho, hc, Bool.false_eq_true, if_false, World.run_bind]
  obtain ⟨e | ⟨⟩, after⟩ := w.run (emit s limit o.path text).run
  · rfl
  · rfl

/-- Delivering an outcome fails exactly if it is lost. -/
lemma deliver_iff (o : Outcome) : (w.run (deliver s limit o)).1 = true ↔ o.Lost s w := by
  unfold Outcome.Lost
  cases ho : o.result with
  | error message => simp [run_deliver_error s limit w ho]
  | ok text =>
    cases hc : s.check with
    | true => simp [run_deliver_check s limit w hc ho, Unwritten, hc]
    | false =>
      simp only [← emit_error_iff s limit w hc, run_deliver_emit s limit w hc ho]
      obtain ⟨e | ⟨⟩, after⟩ := w.run (emit s limit o.path text).run
      · simp
      · simp

/-- What delivering an outcome does, with what is said taken apart. -/
lemma run_deliver (o : Outcome) :
    w.run (deliver s limit o) =
      ((w.quiet.run (deliver s limit o)).1,
        (w.quiet.run (deliver s limit o)).2.after w.notices) := by
  conv_lhs => rw [← w.quiet_after]
  exact oblivious_deliver s limit o w.quiet w.notices

end

/-! ## Lists of outcomes -/

/-- Outcomes are delivered one after another. For each of them, is it lost, and what is said about
it? The world is the one that is left, with nothing said in it. -/
def deliveries (s : Settings) (limit : Option Level) (w : World σ) :
    List Outcome → List (Bool × List Notice) × World σ
  | [] => ([], w.quiet)
  | o :: os =>
    let (lost, after) := w.quiet.run (deliver s limit o)
    let (more, last) := deliveries s limit after os
    ((lost, after.notices.toList) :: more, last)

/-- Each outcome is logged by some lines and then delivered: what is said altogether. -/
def saidWith (lines : Outcome → List LogLine) (os : List Outcome)
    (said : List (Bool × List Notice)) : List Notice :=
  (List.zipWith (fun o d => (lines o).map .log ++ d.2) os said).flatten

section
variable (s : Settings) (limit : Option Level)

/-- The first outcome is delivered in front of the rest of them. -/
lemma deliveries_cons (w : World σ) (o : Outcome) (os : List Outcome) :
    deliveries s limit w (o :: os) =
      (((w.quiet.run (deliver s limit o)).1,
          (w.quiet.run (deliver s limit o)).2.notices.toList) ::
        (deliveries s limit (w.quiet.run (deliver s limit o)).2 os).1,
        (deliveries s limit (w.quiet.run (deliver s limit o)).2 os).2) := rfl

/-- What has been said before does not matter. -/
@[simp] lemma deliveries_quiet (w : World σ) (os : List Outcome) :
    deliveries s limit w.quiet os = deliveries s limit w os := by
  cases os with
  | nil => rfl
  | cons o os => rfl

/-- What has been said before does not bear on deliveries. -/
@[simp] lemma deliveries_after (w : World σ) (before : Array Notice) (os : List Outcome) :
    deliveries s limit (w.after before) os = deliveries s limit w os := by
  rw [← deliveries_quiet, World.after_quiet, deliveries_quiet]

/-- The inputs do not matter beside their outcomes. -/
lemma deliveries_files (files : List Path) (w : World σ) (os : List Outcome) :
    deliveries { s with files := files } limit w os = deliveries s limit w os := by
  induction os generalizing w with
  | nil => rfl
  | cons o os ih =>
    have hdeliver : w.quiet.run (deliver { s with files := files } limit o) =
        w.quiet.run (deliver s limit o) := rfl
    rw [deliveries_cons, deliveries_cons, hdeliver, ih]

/-- Each outcome is delivered once. -/
lemma length_deliveries (w : World σ) (os : List Outcome) :
    (deliveries s limit w os).1.length = os.length := by
  induction os generalizing w with
  | nil => rfl
  | cons o os ih => rw [deliveries_cons, List.length_cons, ih, List.length_cons]

/-- Nothing is left said in the world. -/
lemma notices_deliveries (w : World σ) (os : List Outcome) :
    (deliveries s limit w os).2.notices = #[] := by
  induction os generalizing w with
  | nil => rfl
  | cons o os ih => exact ih _

/-- More outcomes are delivered in the world that the first ones leave. -/
lemma deliveries_append (w : World σ) (os os' : List Outcome) :
    (deliveries s limit w (os ++ os')).2 =
      (deliveries s limit (deliveries s limit w os).2 os').2 := by
  induction os generalizing w with
  | nil => exact congrArg Prod.snd (deliveries_quiet s limit w os').symm
  | cons o os ih => exact ih _

/-- Deliveries with lines that are logged before each of them. -/
lemma run_foldlM_deliver (lines : Outcome → List LogLine) (failed : Bool) (w : World σ)
    (os : List Outcome) :
    w.run (os.foldlM
        (fun failed o => do
          logAll (lines o)
          let lost ← deliver s limit o
          return failed || lost)
        failed) =
      (failed || (deliveries s limit w os).1.any Prod.fst,
        (deliveries s limit w os).2.after
          (w.notices ++ (saidWith lines os (deliveries s limit w os).1).toArray)) := by
  induction os generalizing failed w with
  | nil => simp [deliveries, saidWith]
  | cons o os ih =>
    simp only [List.foldlM_cons, World.run_bind, World.run_logAll, run_deliver _ _ (w.logged _),
      World.logged_quiet, World.run_pure, ih, deliveries_after, deliveries_cons]
    refine Prod.ext ?_ ?_
    · exact Bool.or_assoc failed _ _
    · simp only [World.after, World.logged, saidWith, World.mk.injEq, true_and, ← Array.toList_inj]
      simp

/-- Where no lines are logged, only what is said about each outcome is left. -/
lemma saidWith_of_nil {lines : Outcome → List LogLine} {os : List Outcome}
    {said : List (Bool × List Notice)} (hlength : said.length = os.length)
    (h : ∀ o ∈ os, lines o = []) : saidWith lines os said = said.flatMap Prod.snd := by
  induction os generalizing said with
  | nil => rw [List.length_eq_zero_iff.1 hlength]; rfl
  | cons o os ih =>
    obtain ⟨d, more, rfl⟩ := List.exists_cons_of_length_eq_add_one hlength
    obtain ⟨ho, hos⟩ := List.forall_mem_cons.1 h
    rw [List.flatMap_cons, ← ih (Nat.succ.inj hlength) hos, saidWith, List.zipWith_cons_cons, ho]
    rfl

/-- The messages are those that are said about the outcomes. -/
lemma filterMap_message?_saidWith (lines : Outcome → List LogLine) {os : List Outcome}
    {said : List (Bool × List Notice)} (hlength : said.length = os.length) :
    (saidWith lines os said).filterMap Notice.message? =
      (said.flatMap Prod.snd).filterMap Notice.message? := by
  induction os generalizing said with
  | nil => rw [List.length_eq_zero_iff.1 hlength]; rfl
  | cons o os ih =>
    obtain ⟨d, more, rfl⟩ := List.exists_cons_of_length_eq_add_one hlength
    have hcons : saidWith lines (o :: os) (d :: more) =
        (lines o).map .log ++ d.2 ++ saidWith lines os more := rfl
    rw [hcons, List.filterMap_append, List.filterMap_append, ih (Nat.succ.inj hlength),
      filterMap_message?_log, List.nil_append, List.flatMap_cons, List.filterMap_append]

/-- Outcomes that are delivered one after another say what is said about each of them. -/
lemma run_deliverAll (w : World σ) (os : List Outcome) :
    w.run (deliverAll s limit os) =
      ((deliveries s limit w os).1.any Prod.fst,
        (deliveries s limit w os).2.after
          (w.notices ++ ((deliveries s limit w os).1.flatMap Prod.snd).toArray)) := by
  have hsaid : saidWith (fun _ => []) os (deliveries s limit w os).1 = _ :=
    saidWith_of_nil (length_deliveries s limit w os) fun _ _ => rfl
  rw [← hsaid]
  exact run_foldlM_deliver s limit (fun _ => []) false w os

/-- A delivery fails exactly if an outcome is lost at its turn. -/
lemma any_deliveries_iff (w : World σ) (os : List Outcome) :
    (deliveries s limit w os).1.any Prod.fst = true ↔
      ∃ before o rest, os = before ++ o :: rest ∧ o.Lost s (deliveries s limit w before).2 := by
  induction os generalizing w with
  | nil => simp [deliveries]
  | cons o os ih =>
    rw [deliveries_cons, List.any_cons, Bool.or_eq_true, deliver_iff, ih]
    constructor
    · rintro (hl | ⟨before, o', rest, rfl, hl⟩)
      · exact ⟨[], o, os, rfl, hl⟩
      · exact ⟨o :: before, o', rest, rfl, hl⟩
    · rintro ⟨before, o', rest, hos, hl⟩
      cases before with
      | nil =>
        obtain ⟨rfl, -⟩ := List.cons_eq_cons.1 hos
        exact .inl hl
      | cons first before =>
        obtain ⟨rfl, rfl⟩ := List.cons_eq_cons.1 hos
        exact .inr ⟨before, o', rest, rfl, hl⟩

/-- An outcome that is a failure can be left out: the others print and write the same. -/
lemma deliveries_remove (w : World σ) (before rest : List Outcome) {o : Outcome} {message : String}
    (ho : o.result = .error message) :
    (deliveries s limit w (before ++ o :: rest)).2 =
      (deliveries s limit w (before ++ rest)).2 := by
  rw [deliveries_append, deliveries_append, deliveries_cons, run_deliver_error _ _ _ ho]
  generalize (deliveries s limit w before).2 = now
  -- The report of the failure is all that is left of it, and it does not matter to the rest.
  show (deliveries s limit _ rest).2 = (deliveries s limit now rest).2
  rw [← deliveries_quiet s limit _ rest, ← deliveries_quiet s limit now rest]
  rfl

end

/-! ## Inputs one by one -/

section
variable {m : Type → Type} [Monad m] [Host m]

/-- Logs and delivers outcomes one after another, and tells whether something fails. -/
def deliverEach (s : Settings) (limit : Option Level) (os : List Outcome) : m Bool :=
  os.foldlM
    (fun failed o => do
      logAll o.log
      let lost ← deliver s limit o
      return failed || lost)
    false

/-- Handles the inputs one by one in their order, once all of them are read. -/
def oneByOne (s : Settings) (limit : Option Level) : m Bool := do
  let outcomes ← s.files.mapM fun path => do
    return outcome s limit path (← (Host.read path).run)
  deliverEach s limit outcomes

end

/-- The result for an input. There is none if its file cannot be read or holds no text, or if that
text does not compile or cannot be listed. -/
def result? (s : Settings) (tree : FileTree) (path : Path) : Option String := do
  let bytes ← (tree.read path).toOption
  let source ← Utf8.decode? bytes
  match s.output with
  | .tokens => (tokenListing (tokensOf source)).toOption
  | .tree => (compileToTree s.options source).toOption
  | .vm => (compileToVm s.options source).toOption

/-- The outcomes for inputs. -/
def outcomes (s : Settings) (limit : Option Level) (tree : FileTree) (paths : List Path) :
    List Outcome :=
  paths.map fun path => outcome s limit path (tree.read path)

section
variable (s : Settings) (limit : Option Level)

/-- Handling the inputs one by one delivers the outcomes for them. -/
lemma run_oneByOne (w : World σ) :
    w.run (oneByOne s limit) =
      let done := deliveries s limit w (outcomes s limit w.tree s.files)
      (done.1.any Prod.fst, done.2.after (w.notices ++
        (saidWith Outcome.log (outcomes s limit w.tree s.files) done.1).toArray)) := by
  have hread (path : Path) :
      w.run (do return outcome s limit path (← (Host.read path).run)) =
        (outcome s limit path (w.tree.read path), w) := rfl
  rw [oneByOne, World.run_bind, w.run_mapM hread]
  exact run_foldlM_deliver s limit Outcome.log false w _

/-- An outcome is about its input, and its result is the one of that input. -/
lemma outcome_spec (tree : FileTree) (path : Path) :
    (outcome s limit path (tree.read path)).path = path ∧
      (outcome s limit path (tree.read path)).result.toOption = result? s tree path := by
  unfold outcome result?
  cases tree.read path with
  | error e => exact ⟨rfl, rfl⟩
  | ok bytes =>
    simp only [Except.toOption, Option.bind_eq_bind, Option.bind_some]
    cases Utf8.decode? bytes with
    | none => exact ⟨rfl, rfl⟩
    | some source =>
      simp only [produce, Option.bind_some]
      cases s.output with
      | tokens => cases tokenListing (tokensOf source) <;> exact ⟨rfl, rfl⟩
      | tree =>
        simp only [compiled, compileToTree]
        cases (compileRecorded s.options source).result <;> exact ⟨rfl, rfl⟩
      | vm =>
        simp only [compiled, compileToVm]
        cases (compileSource s.options source).result <;> exact ⟨rfl, rfl⟩

/-- The outcome for an input without a result is a failure. -/
lemma exists_error_outcome {tree : FileTree} {path : Path} (h : result? s tree path = none) :
    ∃ message, (outcome s limit path (tree.read path)).result = .error message := by
  rw [← (outcome_spec s limit tree path).2] at h
  cases hr : (outcome s limit path (tree.read path)).result with
  | error message => exact ⟨message, rfl⟩
  | ok text =>
    rw [hr] at h
    cases h

/-- The outcome for an input with a result holds that result. -/
lemma ok_outcome {tree : FileTree} {path : Path} {text : String}
    (h : result? s tree path = some text) :
    (outcome s limit path (tree.read path)).result = .ok text := by
  rw [← (outcome_spec s limit tree path).2] at h
  cases hr : (outcome s limit path (tree.read path)).result with
  | error message =>
    rw [hr] at h
    cases h
  | ok text' =>
    rw [hr] at h
    cases h
    rfl

/-- The outcome for an input is lost if there is no result, or if that cannot be written. -/
lemma lost_outcome_iff (tree : FileTree) (now : World σ) (path : Path) :
    (outcome s limit path (tree.read path)).Lost s now ↔
      result? s tree path = none ∨
        ∃ text, result? s tree path = some text ∧ Unwritten s now path text := by
  obtain ⟨hpath, hresult⟩ := outcome_spec s limit tree path
  rw [← hresult, Outcome.Lost, hpath]
  cases (outcome s limit path (tree.read path)).result with
  | error message => simp [Except.toOption]
  | ok text => simp [Except.toOption]

end

end Jack.Command
