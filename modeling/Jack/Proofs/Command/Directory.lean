import Jack.Proofs.Command.Files
import Jack.Proofs.Command.Schedule

/-!
# The directory for the results

Each result is written to a file that is named after the stem of its input, as that is shown. Inputs
whose stems are shown alike share a file, and the last of them fills it: this holds for the inputs
so far, one outcome after another (`Filed`). Where no two stems are shown alike, each input has a
file of its own.
-/

namespace Jack.Command

open Text

/-! ## Names of results -/

/-- Different stems give different names. -/
lemma Output.fileName_injective (output : Output) : Function.Injective output.fileName := by
  intro stem stem' h
  cases output with
  | vm => exact (String.append_left_inj ".vm").1 h
  | tokens => exact (String.append_left_inj "T.xml").1 h
  | tree => exact (String.append_left_inj ".xml").1 h

/-- Different names give different paths below a directory. -/
lemma Path.join_injective (dir : Path) : Function.Injective dir.join := by
  intro name name' h
  unfold join at h
  split at h
  · exact Utf8.bytes_injective (List.append_cancel_left (Path.mk.inj h))
  · exact Utf8.bytes_injective (List.cons.inj (List.append_cancel_left (Path.mk.inj h))).2

/-- A file can be named after every stem, as the extension makes the name long enough. -/
lemma Output.properName_fileName (output : Output) {stem : String} (h : '/' ∉ stem.toList) :
    ProperName (Utf8.bytes (output.fileName stem)) := by
  have hlength : 2 < (output.fileName stem).length := by
    have hvm : ".vm".length = 3 := rfl
    have htokens : "T.xml".length = 5 := rfl
    have htree : ".xml".length = 4 := rfl
    cases output <;> simp only [Output.fileName, String.length_append] <;> omega
  have hne {name : String} (hname : name.length ≤ 2) :
      Utf8.bytes (output.fileName stem) ≠ Utf8.bytes name := by
    intro heq
    rw [Utf8.bytes_injective heq] at hlength
    omega
  have hnil : ("" : String).length ≤ 2 := by decide
  have hhere : (".").length ≤ 2 := by decide
  have hup : ("..").length ≤ 2 := by decide
  refine ⟨hne hnil, hne hhere, hne hup, fun hslash => ?_⟩
  have hmem : '/' ∈ (output.fileName stem).toList := Utf8.mem_of_mem_bytes hslash (by decide)
  revert hmem
  cases output <;> simpa [Output.fileName] using h

/-! ## The last input with a stem -/

/-- The last of the inputs whose stem is shown as a text. -/
def lastWith? (paths : List Path) (stem : String) : Option Path :=
  (paths.filter (·.shownStem == stem)).getLast?

section
variable {paths : List Path} {path last : Path} {stem : String}

/-- One more input is the last one with its stem. -/
lemma lastWith?_concat (paths : List Path) (path : Path) (stem : String) :
    lastWith? (paths ++ [path]) stem =
      if path.shownStem = stem then some path else lastWith? paths stem := by
  unfold lastWith?
  rw [List.filter_append, List.getLast?_append]
  split
  · next h => simp [h]
  · next h => simp [h]

/-- There is a last one where there is one. -/
lemma exists_lastWith? (h : path ∈ paths) :
    ∃ last, lastWith? paths path.shownStem = some last := by
  rw [← Option.isSome_iff_exists, lastWith?, List.getLast?_isSome]
  exact List.ne_nil_of_mem (List.mem_filter.2 ⟨h, beq_self_eq_true _⟩)

/-- The last input with a stem is an input with that stem. -/
lemma of_lastWith? (h : lastWith? paths stem = some last) :
    last ∈ paths ∧ last.shownStem = stem := by
  obtain ⟨hmem, hstem⟩ := List.mem_filter.1 (List.mem_of_getLast? h)
  exact ⟨hmem, eq_of_beq hstem⟩

/-- Where no two inputs have one stem, an input is the last one with its stem. -/
lemma lastWith?_eq_self (hnodup : (paths.map Path.shownStem).Nodup) (h : path ∈ paths) :
    lastWith? paths path.shownStem = some path := by
  obtain ⟨last, hlast⟩ := exists_lastWith? h
  obtain ⟨hmem, hstem⟩ := of_lastWith? hlast
  rw [hlast, List.inj_on_of_nodup_map hnodup hmem h hstem]

end

/-! ## Writing the results -/

/-- The files of the directory that the inputs have been written to. Each of them holds the result
for the last input with its stem. -/
def Filed (s : Settings) (tree : FileTree) (dir : Path) (paths : List Path) (now : FileTree) :
    Prop :=
  ∀ stem last, lastWith? paths stem = some last → ∃ text, result? s tree last = some text ∧
    now.read (dir.join (s.output.fileName stem)) = .ok (Utf8.bytes text)

section
variable {s : Settings} {limit : Option Level} {tree now after : FileTree} {dir path : Path}
  {text : String} {paths : List Path}

/-- The stem of an input with a result is a name. -/
lemma slash_not_mem_of_result? (h : result? s tree path = some text) :
    '/' ∉ path.shownStem.toList := by
  obtain ⟨bytes, hbytes, -⟩ := Option.bind_eq_some_iff.1 h
  cases hread : tree.read path with
  | error e =>
    rw [hread] at hbytes
    cases hbytes
  | ok bytes => exact FileTree.slash_not_mem_of_read hread

/-- One more result is written. -/
lemma Filed.write {made : FileTree} (h : Filed s tree dir paths now)
    (hresult : result? s tree path = some text) (hkeeps : now.Keeps made)
    (hwrite : made.write (target s dir path) (Utf8.bytes text) = (.ok (), after)) :
    Filed s tree dir (paths ++ [path]) after := by
  intro stem last hlast
  rw [lastWith?_concat] at hlast
  split at hlast
  · next hstem =>
    cases hlast
    exact ⟨text, hresult, hstem ▸ FileTree.read_write hwrite⟩
  · next hstem =>
    obtain ⟨old, hold, hread⟩ := h stem last hlast
    obtain ⟨-, rfl⟩ := of_lastWith? hlast
    refine ⟨old, hold, FileTree.read_write_other ?_ ?_ ?_ (hkeeps.read hread) hwrite⟩
    · exact s.output.properName_fileName (slash_not_mem_of_result? hold)
    · exact s.output.properName_fileName (slash_not_mem_of_result? hresult)
    · exact fun hname => hstem (s.output.fileName_injective hname).symm

variable {σ : Type} [Sink σ] {w : World σ}

/-- A result that is not lost is written once the directory is there. -/
lemma write_of_deliver (hc : s.check = false) (hd : s.outDir = some dir) {o : Outcome}
    (ho : o.result = .ok text) (h : (w.run (deliver s limit o)).1 = false) :
    (w.tree.makeDirs dir).2.write (target s dir o.path) (Utf8.bytes text) =
      (.ok (), (w.run (deliver s limit o)).2.tree) := by
  rw [run_deliver_emit s limit w hc ho, run_emit_dir s limit w hd] at h ⊢
  generalize w.tree.makeDirs dir = made at h ⊢
  obtain ⟨e | ⟨⟩, made⟩ := made
  · cases h
  · dsimp only at h ⊢
    generalize made.write (target s dir o.path) (Utf8.bytes text) = written at h ⊢
    obtain ⟨e | ⟨⟩, after⟩ := written
    · cases h
    · rfl

/-- An outcome that is not lost holds the result for its input. -/
lemma exists_result_of_deliver (h : (w.run (deliver s limit
      (outcome s limit path (tree.read path)))).1 = false) :
    ∃ text, result? s tree path = some text := by
  rw [← Bool.not_eq_true, deliver_iff, lost_outcome_iff, not_or] at h
  exact Option.ne_none_iff_exists'.1 h.1

/-- As long as nothing fails, one outcome after another is written. -/
lemma Filed.deliveries (hc : s.check = false) (hd : s.outDir = some dir) {more : List Path}
    (h : Filed s tree dir paths w.tree)
    (hf : (deliveries s limit w (outcomes s limit tree more)).1.any Prod.fst = false) :
    Filed s tree dir (paths ++ more)
      (Jack.Command.deliveries s limit w (outcomes s limit tree more)).2.tree := by
  induction more generalizing paths w with
  | nil =>
    rw [List.append_nil]
    exact h
  | cons path more ih =>
    have hcons : outcomes s limit tree (path :: more) =
        outcome s limit path (tree.read path) :: outcomes s limit tree more := rfl
    rw [hcons, deliveries_cons, List.any_cons, Bool.or_eq_false_iff] at hf
    obtain ⟨text, hresult⟩ := exists_result_of_deliver hf.1
    have hwrite := write_of_deliver hc hd (ok_outcome s limit hresult) hf.1
    rw [(outcome_spec s limit tree path).1] at hwrite
    rw [hcons, deliveries_cons, List.append_cons]
    exact ih (h.write hresult (FileTree.keeps_makeDirs dir) hwrite) hf.2

end

variable {σ : Type} [Sink σ]

/-- A run of the command that writes into a directory and succeeds leaves for each input a file
there that is named after its stem, as that is shown. It holds the whole result for the last of the
inputs whose stems are shown so. Where no two stems are shown alike, no two inputs have one file,
and each file holds the result for its input. -/
theorem directory_of_results (s : Settings) (limit : Option Level) (w : World σ) (dir : Path)
    (hcheck : s.check = false) (hdir : s.outDir = some dir) (result : Bool × World σ)
    (h : Scheduled s limit w result) (hstatus : exitStatus result.1 = 0) :
    (∀ path ∈ s.files, ∃ last text, lastWith? s.files path.shownStem = some last ∧
      result? s w.tree last = some text ∧
      result.2.tree.read (target s dir path) = .ok (Utf8.bytes text)) ∧
    ((s.files.map Path.shownStem).Nodup →
      (s.files.map (target s dir)).Nodup ∧
      ∀ path ∈ s.files, ∃ text, result? s w.tree path = some text ∧
        result.2.tree.read (target s dir path) = .ok (Utf8.bytes text)) := by
  have hfailed : result.1 = false := by
    unfold exitStatus at hstatus
    split at hstatus
    · cases hstatus
    · next hfailed => exact Bool.eq_false_iff.2 hfailed
  -- A schedule changes the order of the log only, so the deliveries are those of one by one.
  have hfiled : Filed s w.tree dir s.files result.2.tree := by
    have hstart : Filed s w.tree dir [] w.tree := nofun
    obtain ⟨merged, -, rfl⟩ := h.exists_eq
    exact hstart.deliveries hcheck hdir hfailed
  refine ⟨fun path hpath => ?_, fun hnodup => ⟨?_, fun path hpath => ?_⟩⟩
  · obtain ⟨last, hlast⟩ := exists_lastWith? hpath
    obtain ⟨text, hresult, hread⟩ := hfiled _ last hlast
    exact ⟨last, text, hlast, hresult, hread⟩
  · -- The path of a file determines the text of the stem that it is named after.
    have hinj : Function.Injective fun stem => dir.join (s.output.fileName stem) :=
      dir.join_injective.comp s.output.fileName_injective
    have hmap : s.files.map (target s dir) =
        (s.files.map Path.shownStem).map fun stem => dir.join (s.output.fileName stem) := by
      rw [List.map_map]
      rfl
    rw [hmap]
    exact hnodup.map hinj
  · exact hfiled _ path (lastWith?_eq_self hnodup hpath)

/-- Two of three inputs have one stem; the third one has a stem with a dot. -/
theorem directory_of_results_three :
    let s : Settings :=
      { files := [.of "a/M.jack", .of "N.x.jack", .of "b/M"], outDir := some (.of "out"),
        tokens := true }
    let w : World String :=
      { tree := ⟨[((Path.of "a").parts, .dir), ((Path.of "b").parts, .dir),
          ((Path.of "a/M.jack").parts, .file (Utf8.bytes "x")),
          ((Path.of "N.x.jack").parts, .file (Utf8.bytes "2")),
          ((Path.of "b/M").parts, .file (Utf8.bytes "y"))]⟩
        stdout := "" }
    let listing (token : String) := "<tokens>\n" ++ token ++ "\n</tokens>\n"
    ∃ result, s.check = false ∧ s.outDir = some (.of "out") ∧ Scheduled s none w result ∧
      exitStatus result.1 = 0 ∧
      result.2.tree.read (.of "out/MT.xml") =
        .ok (Utf8.bytes (listing "<identifier> y </identifier>")) ∧
      result.2.tree.read (.of "out/N.xT.xml") =
        .ok (Utf8.bytes (listing "<integerConstant> 2 </integerConstant>")) := by
  intro s w listing
  have h := scheduled_handle s none w
  have hstatus : exitStatus (w.run (handle s none)).1 = 0 := by
    rw [h.same.1]
    decide +kernel
  obtain ⟨hfiles, -⟩ := directory_of_results s none w (.of "out") rfl rfl _ h hstatus
  refine ⟨_, rfl, rfl, h, hstatus, ?_, ?_⟩
  · obtain ⟨last, text, hlast, hresult, hread⟩ := hfiles (.of "a/M.jack") (by decide)
    obtain rfl : .of "b/M" = last := Option.some_inj.1 (Eq.trans (by decide +kernel) hlast)
    have htext : result? s w.tree (.of "b/M") = some (listing "<identifier> y </identifier>") := by
      decide +kernel
    have htarget : target s (.of "out") (.of "a/M.jack") = .of "out/MT.xml" := by decide +kernel
    rw [htarget, Option.some_inj.1 (hresult.symm.trans htext)] at hread
    exact hread
  · obtain ⟨last, text, hlast, hresult, hread⟩ := hfiles (.of "N.x.jack") (by decide)
    obtain rfl : .of "N.x.jack" = last := Option.some_inj.1 (Eq.trans (by decide +kernel) hlast)
    have htext : result? s w.tree (.of "N.x.jack") =
        some (listing "<integerConstant> 2 </integerConstant>") := by
      decide +kernel
    have htarget : target s (.of "out") (.of "N.x.jack") = .of "out/N.xT.xml" := by decide +kernel
    rw [htarget, Option.some_inj.1 (hresult.symm.trans htext)] at hread
    exact hread

/-- Two inputs in different directories have one stem. The command succeeds, and the file that is
named after the first of them does not hold the result for it. -/
theorem result_replaced_in_directory :
    let s : Settings :=
      { files := [.of "a/M.jack", .of "b/M.jack"], outDir := some (.of "out"), tokens := true }
    let w : World String :=
      { tree := ⟨[((Path.of "a").parts, .dir), ((Path.of "b").parts, .dir),
          ((Path.of "a/M.jack").parts, .file (Utf8.bytes "x")),
          ((Path.of "b/M.jack").parts, .file (Utf8.bytes "y"))]⟩
        stdout := "" }
    ∃ result text, s.files.Nodup ∧ s.check = false ∧ s.outDir = some (.of "out") ∧
      Scheduled s none w result ∧ exitStatus result.1 = 0 ∧
      result? s w.tree (.of "a/M.jack") = some text ∧
      result.2.tree.read (target s (.of "out") (.of "a/M.jack")) ≠ .ok (Utf8.bytes text) := by
  intro s w
  have h := scheduled_handle s none w
  refine ⟨_, "<tokens>\n<identifier> x </identifier>\n</tokens>\n", by decide, rfl, rfl, h, ?_,
    by decide +kernel, ?_⟩
  · rw [h.same.1]
    decide +kernel
  · rw [h.same.2.2]
    decide +kernel

end Jack.Command
