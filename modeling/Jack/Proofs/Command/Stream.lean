import Jack.Proofs.Command.Schedule
import Jack.Proofs.Compile.Names
import Jack.Proofs.Vm.Linewise

/-!
# The printed programs are one program

On the standard output each program stands behind a comment that names its input, and every line is
ended. So reading the output reads the programs one after another, and an input that fails has left
nothing in it.
-/

namespace Jack

/-! ## Programs one behind another -/

namespace Text

/-- Whole lines behind whole lines are whole lines. -/
lemma WholeLines.append {a b : List Char} (ha : WholeLines a) (hb : WholeLines b) :
    WholeLines (a ++ b) := by
  obtain rfl | hb := hb
  · rwa [List.append_nil]
  · refine .inr ?_
    rw [List.getLast?_append, hb, Option.some_or]

/-- Lines with their line feeds are whole lines. -/
lemma WholeLines.flatMap_line (lines : List (List Char)) :
    WholeLines (lines.flatMap (· ++ ['\n'])) := by
  induction lines with
  | nil => exact .inl rfl
  | cons line lines ih =>
    rw [List.flatMap_cons]
    exact WholeLines.append (.inr List.getLast?_concat) ih

end Text

namespace Vm.Instruction

open Text

/-- A listing is made of whole lines. -/
lemma wholeLines_listing (code : List Instruction) : WholeLines (listing code).toList := by
  rw [toList_listing]
  exact .flatMap_line _

/-- A text without faults is read behind whole lines as it is read by itself. -/
lemma decode_append_of_ok {a b : String} {as bs : List Instruction} (ha : WholeLines a.toList)
    (has : decode a = as.map .ok) (hbs : decode b = bs.map .ok) :
    decode (a ++ b) = (as ++ bs).map .ok := by
  rw [decode_append ha, has, hbs, List.map_map, List.map_append]
  rfl

/-- Texts of whole lines without faults are read one after another. -/
lemma decode_join {α : Type} {text : α → String} {code : α → List Instruction} {xs : List α}
    (hlines : ∀ x ∈ xs, WholeLines (text x).toList)
    (hcode : ∀ x ∈ xs, decode (text x) = (code x).map .ok) :
    decode (String.join (xs.map text)) = (xs.flatMap code).map .ok := by
  induction xs with
  | nil => rfl
  | cons x xs ih =>
    obtain ⟨hx, hxs⟩ := List.forall_mem_cons.1 hlines
    obtain ⟨hc, hcs⟩ := List.forall_mem_cons.1 hcode
    rw [List.map_cons, String.join_cons, List.flatMap_cons]
    exact decode_append_of_ok hx hc (ih hxs hcs)

/-- Nothing is read from a comment. -/
lemma decode_comment {text : String} (h : '\n' ∉ text.toList) :
    decode ("// " ++ text ++ "\n") = [] := by
  have hline : '\n' ∉ '/' :: '/' :: ' ' :: text.toList := by simpa using h
  have hlines :
      ("// " ++ text ++ "\n").toList = '/' :: '/' :: ' ' :: text.toList ++ '\n' :: [] := by
    simp
  have hblank : BlankLine (dropReturn ('/' :: '/' :: ' ' :: text.toList)) := by
    rw [blankLine_iff]
    unfold dropReturn
    split <;> nofun
  rw [decode, hlines, lines_cons hline, ofLines_eq]
  simp [ofLine?_eq_none_iff.2 hblank]

end Vm.Instruction

/-! ## Programs of inputs -/

open Text Vm.Instruction

/-- The code of a source can be written and read again. -/
lemma writable_compileSource (o : Options) (source : String)
    (h : ∀ name ∈ o.runtime.names, Legible name.toList) :
    ∀ i ∈ (compileSource o source).engine.code, i.Writable := by
  have hs : (Engine.start o (tokensOf source)).Plain :=
    ⟨h, nofun, ⟨Scope.plain_empty, Scope.plain_empty⟩, nofun⟩
  exact (hs.compileClass (plain_tokensOf source)).code

namespace Command

/-- The program that an input compiles to. There is none if its file cannot be read or holds no
text, or if that text does not compile. -/
def program? (s : Settings) (tree : FileTree) (path : Path) : Option (List Vm.Instruction) := do
  let bytes ← (tree.read path).toOption
  let source ← Utf8.decode? bytes
  match (compileSource s.options source).result with
  | .ok _ => some (compileSource s.options source).engine.code
  | .error _ => none

/-- The text that is printed for an outcome. -/
def Outcome.printed (s : Settings) (o : Outcome) : String :=
  match o.result with
  | .ok text => (if s.output = .vm then header o.path else "") ++ text
  | .error _ => ""

section
variable {s : Settings} {limit : Option Level} {tree : FileTree}

/-- The names of the runtime can be read back, whatever the settings. -/
lemma legible_runtime (s : Settings) : ∀ name ∈ s.options.runtime.names, Legible name.toList := by
  have hr : s.options.runtime = {} := by
    unfold Settings.options
    split <;> rfl
  rw [hr]
  decide +kernel

/-- The program of an input can be written and read again. -/
lemma writable_program {path : Path} {code : List Vm.Instruction}
    (h : program? s tree path = some code) : ∀ i ∈ code, i.Writable := by
  obtain ⟨bytes, -, h⟩ := Option.bind_eq_some_iff.1 h
  obtain ⟨source, -, h⟩ := Option.bind_eq_some_iff.1 h
  split at h
  · cases h
    exact writable_compileSource s.options source (legible_runtime s)
  · cases h

/-- The result for an input is the text of its program. -/
lemma result?_eq_listing (hvm : s.output = .vm) (path : Path) :
    result? s tree path = (program? s tree path).map listing := by
  unfold result? program?
  cases tree.read path with
  | error e => rfl
  | ok bytes =>
    simp only [Except.toOption, Option.bind_eq_bind, Option.bind_some]
    cases Utf8.decode? bytes with
    | none => rfl
    | some source =>
      simp only [hvm, Option.bind_some, compileToVm]
      cases (compileSource s.options source).result <;> rfl

/-! ## The standard output -/

/-- Without a directory for the results, delivering an outcome prints it. -/
lemma stdout_deliver (hc : s.check = false) (hd : s.outDir = none) (w : World String)
    (o : Outcome) : (w.run (deliver s limit o)).2.stdout = w.stdout ++ o.printed s := by
  unfold Outcome.printed
  cases ho : o.result with
  | error message =>
    rw [run_deliver_error s limit w ho]
    exact String.append_empty.symm
  | ok text =>
    rw [run_deliver_emit s limit w hc ho, run_emit_print s limit w hd]
    by_cases hvm : s.output = .vm
    · rw [if_pos hvm, if_pos hvm]
      exact String.append_assoc
    · rw [if_neg hvm, if_neg hvm]
      exact congrArg (w.stdout ++ ·) String.empty_append.symm

/-- All outcomes are printed one after another. -/
lemma stdout_deliveries (hc : s.check = false) (hd : s.outDir = none) (w : World String)
    (os : List Outcome) :
    (deliveries s limit w os).2.stdout =
      w.stdout ++ String.join (os.map (Outcome.printed s)) := by
  induction os generalizing w with
  | nil => simp [deliveries]
  | cons o os ih =>
    rw [deliveries_cons, ih, stdout_deliver hc hd, List.map_cons, String.join_cons,
      String.append_assoc]
    rfl

/-- What is printed for an input is its program behind a comment, or nothing. -/
lemma printed_outcome (hvm : s.output = .vm) (path : Path) :
    (outcome s limit path (tree.read path)).printed s =
      match program? s tree path with
      | some code => header path ++ listing code
      | none => "" := by
  obtain ⟨hpath, hresult⟩ := outcome_spec s limit tree path
  rw [result?_eq_listing hvm] at hresult
  rw [Outcome.printed, hpath, if_pos hvm]
  cases hr : (outcome s limit path (tree.read path)).result with
  | error message =>
    rw [hr] at hresult
    rw [Option.map_eq_none_iff.1 hresult.symm]
  | ok text =>
    rw [hr] at hresult
    obtain ⟨code, hcode, rfl⟩ := Option.map_eq_some_iff.1 hresult.symm
    rw [hcode]

/-- A path without a line feed is shown without one. -/
lemma line_feed_not_mem_display {path : Path} (h : 0x0A ∉ path.bytes) :
    '\n' ∉ path.display.toList :=
  fun hfeed => h ((Utf8.decoded_lossy path.bytes).mem_of_mem (by decide) hfeed)

/-- The printed text for an input consists of whole lines, and its program is read from it. -/
lemma decode_printed_outcome (hvm : s.output = .vm) {path : Path} (h : 0x0A ∉ path.bytes) :
    WholeLines ((outcome s limit path (tree.read path)).printed s).toList ∧
      decode ((outcome s limit path (tree.read path)).printed s) =
        ((program? s tree path).getD []).map .ok := by
  rw [printed_outcome hvm]
  cases hcode : program? s tree path with
  | none => exact ⟨.inl rfl, rfl⟩
  | some code =>
    have hheader : WholeLines (header path).toList := by
      rw [header, String.toList_append]
      exact .inr List.getLast?_concat
    refine ⟨?_, ?_⟩
    · rw [String.toList_append]
      exact hheader.append (wholeLines_listing code)
    · have hcomment : decode (header path) = ([] : List Vm.Instruction).map .ok :=
        decode_comment (line_feed_not_mem_display h)
      exact decode_append_of_ok hheader hcomment (decode_listing (writable_program hcode))

end

/-- What the command prints for any number of inputs is one program text without faults. It holds
the programs of the inputs that compile, in the order of the inputs, and nothing of the others. -/
theorem decode_printed_programs (s : Settings) (limit : Option Level) (w : World String)
    (hvm : s.output = .vm) (hcheck : s.check = false) (hdir : s.outDir = none)
    (hfiles : ∀ path ∈ s.files, 0x0A ∉ path.bytes) (hstdout : w.stdout = "")
    (result : Bool × World String) (h : Scheduled s limit w result) :
    decode result.2.stdout =
      (s.files.flatMap fun path => (program? s w.tree path).getD []).map .ok := by
  have hprinted : result.2.stdout = String.join
      (s.files.map fun path => (outcome s limit path (w.tree.read path)).printed s) := by
    obtain ⟨merged, -, rfl⟩ := h.exists_eq
    rw [World.stdout_after, stdout_deliveries hcheck hdir, hstdout, outcomes, List.map_map]
    exact String.empty_append
  rw [hprinted]
  exact decode_join (fun path hpath => (decode_printed_outcome hvm (hfiles path hpath)).1)
    fun path hpath => (decode_printed_outcome hvm (hfiles path hpath)).2

/-- Of the two inputs between those that compile, one does not exist and one fails in the middle of
its code. -/
theorem decode_printed_programs_gaps :
    let s : Settings := { files := [.of "A", .of "none", .of "C", .of "x//D"] }
    let w : World String :=
      { tree := ⟨[
          ((Path.of "A").parts, .file (Utf8.bytes "class A{function void f(){return;}}")),
          ((Path.of "C").parts, .file (Utf8.bytes "class C{function int f(){return 1 2;}}")),
          ((Path.of "x").parts, .dir),
          ((Path.of "x/D").parts, .file (Utf8.bytes "class D{function int g(){return 2;}}"))]⟩
        stdout := "" }
    ∃ result, Scheduled s none w result ∧
      s.output = .vm ∧ s.check = false ∧ s.outDir = none ∧
      (∀ path ∈ s.files, 0x0A ∉ path.bytes) ∧ w.stdout = "" ∧
      decode result.2.stdout = [.ok (.function "A.f" 0), .ok (.push .constant 0), .ok .ret,
        .ok (.function "D.g" 0), .ok (.push .constant 2), .ok .ret] := by
  intro s w
  have hfiles : ∀ path ∈ s.files, 0x0A ∉ path.bytes := by decide
  refine ⟨_, scheduled_handle s none w, rfl, rfl, rfl, hfiles, rfl, ?_⟩
  rw [decode_printed_programs s none w rfl rfl rfl hfiles rfl _ (scheduled_handle s none w)]
  decide +kernel

end Command

end Jack
