import Jack.Proofs.Command.Delivery
import Mathlib.Data.List.Nodup
import Mathlib.Logic.Relation

/-!
# Workers and their schedules

There is one worker for each input. It reads the file, logs its lines one at a time and hands over
the outcome, and the workers take their steps in any order. Only when all of them have ended are the
outcomes delivered. Whatever the order of the steps, the outcomes that have arrived are those of the
inputs, and the lines that have been logged are theirs, each input's own in their order
(`Pool.Sound`). Sorting the outcomes then makes everything but the order of the log the same for
every schedule.
-/

namespace Jack.Command

open Text

/-! ## Interleaving -/

/-- A list made of lists that each keep their order. -/
inductive Interleaved {α : Type} : List (List α) → List α → Prop where
  | done {ls} :
    (∀ l ∈ ls, l = []) →
    Interleaved ls []
  | pick {a l merged} (before rest : List (List α)) :
    Interleaved (before ++ l :: rest) merged →
    Interleaved (before ++ (a :: l) :: rest) (a :: merged)

/-- An interleaving holds what the lists hold. -/
lemma Interleaved.perm {α : Type} {ls : List (List α)} {merged : List α}
    (h : Interleaved ls merged) : merged.Perm ls.flatten := by
  induction h with
  | done h => rw [List.flatten_eq_nil_iff.2 h]
  | pick before rest _ ih =>
    refine (ih.cons _).trans ?_
    simp only [List.flatten_append, List.flatten_cons, List.cons_append]
    exact List.perm_middle.symm

/-! ## Workers -/

/-- How far a worker is. -/
inductive Work where
  | waiting
  /-- There is an outcome, and these lines are still to be logged. -/
  | logging (o : Outcome) (rest : List LogLine)
  | done

/-- The worker for one input. -/
structure Worker where
  number : Nat
  path : Path
  work : Work

/-- The workers with what they share. -/
structure Pool (σ : Type) where
  world : World σ
  workers : List Worker
  /-- The outcomes that have been handed over, in the order of their arrival. -/
  arrivals : List (Nat × Outcome)

variable {σ : Type} [Sink σ]

namespace Pool

/-- Nothing is done yet. -/
def start (s : Settings) (w : World σ) : Pool σ where
  world := w
  workers := s.files.zipIdx.map fun (path, number) => ⟨number, path, .waiting⟩
  arrivals := []

/-- One of the workers takes a step. -/
inductive Step (s : Settings) (limit : Option Level) : Pool σ → Pool σ → Prop where
  | read {w after contents arrivals} (before : List Worker) (number : Nat) (path : Path)
    (rest : List Worker) :
    w.run (Host.read path).run = (contents, after) →
    Step s limit ⟨w, before ++ ⟨number, path, .waiting⟩ :: rest, arrivals⟩
      ⟨after, before ++ ⟨number, path, .logging (outcome s limit path contents)
        (outcome s limit path contents).log⟩ :: rest, arrivals⟩
  | log {w after path o l ls arrivals} (before : List Worker) (number : Nat)
    (rest : List Worker) :
    w.run (Host.say (.log l)) = ((), after) →
    Step s limit ⟨w, before ++ ⟨number, path, .logging o (l :: ls)⟩ :: rest, arrivals⟩
      ⟨after, before ++ ⟨number, path, .logging o ls⟩ :: rest, arrivals⟩
  | handOver {w path o arrivals} (before : List Worker) (number : Nat) (rest : List Worker) :
    Step s limit ⟨w, before ++ ⟨number, path, .logging o []⟩ :: rest, arrivals⟩
      ⟨w, before ++ ⟨number, path, .done⟩ :: rest, arrivals ++ [(number, o)]⟩

/-- The workers take steps. -/
def Runs (s : Settings) (limit : Option Level) : Pool σ → Pool σ → Prop :=
  Relation.ReflTransGen (Step s limit)

/-- All workers have ended. -/
def Finished (p : Pool σ) : Prop := ∀ w ∈ p.workers, w.work = .done

end Pool

/-- Under some schedule of the workers the command fails or not and leaves the world so. Once they
have ended, it delivers what they have handed over in the order of the inputs. -/
def Scheduled (s : Settings) (limit : Option Level) (w : World σ) (result : Bool × World σ) :
    Prop :=
  ∃ p, (Pool.start s w).Runs s limit p ∧ p.Finished ∧
    p.world.run (deliverAll s limit (inOrder p.arrivals)) = result

/-! ## What holds under every schedule -/

/-- The outcomes for all inputs with their numbers. -/
def numbered (s : Settings) (limit : Option Level) (tree : FileTree) : List (Nat × Outcome) :=
  s.files.zipIdx.map fun (path, number) => (number, outcome s limit path (tree.read path))

namespace Worker

variable (s : Settings) (limit : Option Level) (tree : FileTree)

/-- What a worker has still to hand over. -/
def due (w : Worker) : Option (Nat × Outcome) :=
  match w.work with
  | .waiting => some (w.number, outcome s limit w.path (tree.read w.path))
  | .logging o _ => some (w.number, o)
  | .done => none

/-- The lines that a worker has still to log. -/
def unlogged (w : Worker) : List LogLine :=
  match w.work with
  | .waiting => (outcome s limit w.path (tree.read w.path)).log
  | .logging _ rest => rest
  | .done => []

end Worker

namespace Pool

/-- What has arrived and what is due make up the outcomes for the inputs. Nothing but lines of their
logs has been added to the world, and in whatever order the rest of them comes, each log keeps its
own. -/
structure Sound (s : Settings) (limit : Option Level) (w : World σ) (p : Pool σ) : Prop where
  outcomes : (p.arrivals ++ p.workers.filterMap (Worker.due s limit w.tree)).Perm
    (numbered s limit w.tree)
  logs : ∃ ls, p.world = w.logged ls ∧
    ∀ rest, Interleaved (p.workers.map (Worker.unlogged s limit w.tree)) rest →
      Interleaved ((Jack.Command.outcomes s limit w.tree s.files).map Outcome.log) (ls ++ rest)

variable {s : Settings} {limit : Option Level} {w : World σ} {p q : Pool σ}

omit [Sink σ] in
/-- At the start everything is due. -/
lemma sound_start : (start s w).Sound s limit w where
  outcomes := by
    simp [start, numbered, List.filterMap_map, Function.comp_def, Worker.due]
  logs := by
    refine ⟨[], by simp [start], fun rest h => ?_⟩
    have hlogs : (start s w).workers.map (Worker.unlogged s limit w.tree) =
        (Jack.Command.outcomes s limit w.tree s.files).map Outcome.log := by
      rw [start, List.map_map, ← List.zipIdx_map_fst 0 s.files, Jack.Command.outcomes, List.map_map,
        List.map_map, List.zipIdx_map_fst]
      rfl
    rwa [← hlogs]

/-- No step breaks it. -/
lemma Sound.step (h : p.Sound s limit w) (hs : p.Step s limit q) : q.Sound s limit w := by
  obtain ⟨houtcomes, ls, hworld, hlogs⟩ := h
  cases hs with
  | read before number path rest hread =>
    simp only at hworld
    subst hworld
    rw [World.run_read, World.tree_logged] at hread
    cases hread
    refine ⟨?_, ls, rfl, ?_⟩
    · simpa [Worker.due] using houtcomes
    · simpa [Worker.unlogged] using hlogs
  | @log _ _ _ o l more _ before number rest hsay =>
    simp only at hworld
    subst hworld
    rw [World.run_say_log] at hsay
    cases hsay
    refine ⟨?_, ls ++ [l], (w.logged_append ls [l]).symm, fun merged hmerged => ?_⟩
    · simpa [Worker.due] using houtcomes
    · -- The line is the next one of its worker, whatever comes behind it.
      rw [List.append_assoc]
      apply hlogs
      simp only [List.map_append, List.map_cons, Worker.unlogged] at hmerged ⊢
      exact .pick _ _ hmerged
  | @handOver _ _ o arrivals before number rest =>
    refine ⟨?_, ls, hworld, ?_⟩
    · refine List.Perm.trans ?_ houtcomes
      simp only [List.filterMap_append, List.filterMap_cons, Worker.due, List.append_assoc,
        List.cons_append, List.nil_append]
      exact List.perm_middle.symm.append_left arrivals
    · simpa [Worker.unlogged] using hlogs

/-- No run breaks it. -/
lemma Sound.runs (h : p.Sound s limit w) (hs : p.Runs s limit q) : q.Sound s limit w := by
  induction hs with
  | refl => exact h
  | tail _ hs ih => exact ih.step hs

omit [Sink σ] in
/-- Nothing is due once the workers have ended. -/
lemma Finished.due_eq_nil (h : p.Finished) (tree : FileTree) :
    p.workers.filterMap (Worker.due s limit tree) = [] := by
  apply List.filterMap_eq_nil_iff.2
  intro worker hworker
  rw [Worker.due, h worker hworker]

omit [Sink σ] in
/-- Nothing is left to be logged once the workers have ended. -/
lemma Finished.interleaved (h : p.Finished) (tree : FileTree) :
    Interleaved (p.workers.map (Worker.unlogged s limit tree)) [] := by
  apply Interleaved.done
  intro lines hlines
  obtain ⟨worker, hworker, rfl⟩ := List.mem_map.1 hlines
  rw [Worker.unlogged, h worker hworker]

end Pool

section
variable (s : Settings) (limit : Option Level) (tree : FileTree)

/-- The outcomes are numbered from zero on. -/
lemma map_fst_numbered : (numbered s limit tree).map Prod.fst = List.range' 0 s.files.length := by
  rw [numbered, List.map_map]
  exact List.zipIdx_map_snd 0 s.files

/-- The numbered outcomes are those of the inputs. -/
lemma map_snd_numbered :
    (numbered s limit tree).map Prod.snd = outcomes s limit tree s.files := by
  have hpaths := congrArg (outcomes s limit tree) (List.zipIdx_map_fst 0 s.files)
  rw [outcomes, List.map_map] at hpaths
  rw [numbered, List.map_map]
  exact hpaths

variable {s limit tree}

/-- Outcomes are sorted by the numbers of their inputs, in whatever order they have arrived. -/
lemma inOrder_of_perm {arrivals : List (Nat × Outcome)}
    (h : arrivals.Perm (numbered s limit tree)) :
    inOrder arrivals = outcomes s limit tree s.files := by
  have hperm := (List.mergeSort_perm arrivals fun a b => a.1 ≤ b.1).trans h
  have hsorted : (arrivals.mergeSort fun a b => a.1 ≤ b.1).Pairwise
      fun a b => decide (a.1 ≤ b.1) = true := by
    apply List.pairwise_mergeSort
    · intro a b c hab hbc
      simp only [decide_eq_true_eq] at hab hbc ⊢
      exact Nat.le_trans hab hbc
    · intro a b
      simpa using Nat.le_total a.1 b.1
  have hnumbered : (numbered s limit tree).Pairwise fun a b => decide (a.1 ≤ b.1) = true := by
    have hlt : (List.range' 0 s.files.length).Pairwise (· < ·) := List.pairwise_lt_range'
    rw [← map_fst_numbered s limit tree, List.pairwise_map] at hlt
    exact hlt.imp fun hab => decide_eq_true (Nat.le_of_lt hab)
  -- No two outcomes have one number, so there is only one way to sort them.
  have hnodup : ((numbered s limit tree).map Prod.fst).Nodup := by
    rw [map_fst_numbered]
    exact List.nodup_range'
  have heq := hperm.eq_of_pairwise (fun a b ha hb hab hba =>
    List.inj_on_of_nodup_map hnodup (hperm.mem_iff.1 ha) hb
      (Nat.le_antisymm (of_decide_eq_true hab) (of_decide_eq_true hba))) hsorted hnumbered
  rw [inOrder, heq, map_snd_numbered]

end

section
variable {s : Settings} {limit : Option Level} {w : World σ} {result : Bool × World σ}

/-- Once the workers have ended, the outcomes that have arrived are those of the inputs. -/
lemma Pool.Finished.inOrder_arrivals {p : Pool σ} (hfinished : p.Finished)
    (hruns : (Pool.start s w).Runs s limit p) :
    inOrder p.arrivals = outcomes s limit w.tree s.files := by
  have houtcomes := (Pool.sound_start.runs hruns).outcomes
  rw [hfinished.due_eq_nil, List.append_nil] at houtcomes
  exact inOrder_of_perm houtcomes

/-- All that is left of a schedule once the workers have ended is the order of their log. -/
lemma Scheduled.exists_interleaved (h : Scheduled s limit w result) :
    ∃ merged, Interleaved ((outcomes s limit w.tree s.files).map Outcome.log) merged ∧
      (w.logged merged).run (deliverAll s limit (outcomes s limit w.tree s.files)) = result := by
  obtain ⟨p, hruns, hfinished, hrun⟩ := h
  obtain ⟨-, merged, hworld, hlogs⟩ := Pool.sound_start.runs hruns
  rw [hfinished.inOrder_arrivals hruns, hworld] at hrun
  have hmerged := hlogs [] (hfinished.interleaved w.tree)
  rw [List.append_nil] at hmerged
  exact ⟨merged, hmerged, hrun⟩

/-- What a schedule leads to: the deliveries of the outcomes, behind their logs. -/
lemma Scheduled.exists_eq (h : Scheduled s limit w result) :
    ∃ merged, Interleaved ((outcomes s limit w.tree s.files).map Outcome.log) merged ∧
      let done := deliveries s limit w (outcomes s limit w.tree s.files)
      result = (done.1.any Prod.fst, done.2.after
        ((w.logged merged).notices ++ (done.1.flatMap Prod.snd).toArray)) := by
  obtain ⟨merged, hmerged, rfl⟩ := h.exists_interleaved
  refine ⟨merged, hmerged, ?_⟩
  have hquiet : deliveries s limit (w.logged merged) (outcomes s limit w.tree s.files) =
      deliveries s limit w (outcomes s limit w.tree s.files) := by
    rw [← deliveries_quiet, World.logged_quiet, deliveries_quiet]
  rw [run_deliverAll, hquiet]

/-- Everything but the error output is as if the inputs were handled one by one. -/
lemma Scheduled.same (h : Scheduled s limit w result) :
    result.1 = (w.run (oneByOne s limit)).1 ∧
      result.2.stdout = (w.run (oneByOne s limit)).2.stdout ∧
      result.2.tree = (w.run (oneByOne s limit)).2.tree := by
  obtain ⟨merged, -, rfl⟩ := h.exists_eq
  rw [run_oneByOne]
  exact ⟨rfl, rfl, rfl⟩

/-- On the error output, the logs of all inputs come before what is said about them. -/
lemma Scheduled.exists_notices (h : Scheduled s limit w result) :
    ∃ merged, Interleaved ((outcomes s limit w.tree s.files).map Outcome.log) merged ∧
      result.2.notices.toList = w.notices.toList ++ merged.map .log ++
        (deliveries s limit w (outcomes s limit w.tree s.files)).1.flatMap Prod.snd := by
  obtain ⟨merged, hmerged, rfl⟩ := h.exists_eq
  refine ⟨merged, hmerged, ?_⟩
  simp [World.after, World.logged, notices_deliveries]

/-- One by one, the log of each input comes before what is said about it. -/
lemma notices_oneByOne (s : Settings) (limit : Option Level) (w : World σ) :
    (w.run (oneByOne s limit)).2.notices.toList = w.notices.toList ++
      saidWith Outcome.log (outcomes s limit w.tree s.files)
        (deliveries s limit w (outcomes s limit w.tree s.files)).1 := by
  rw [run_oneByOne]
  simp [World.after, notices_deliveries]

/-- The messages are the same, and in the same order. -/
lemma Scheduled.messages_eq (h : Scheduled s limit w result) :
    result.2.messages = (w.run (oneByOne s limit)).2.messages := by
  obtain ⟨merged, -, hnotices⟩ := h.exists_notices
  rw [World.messages, World.messages, hnotices, notices_oneByOne, List.filterMap_append,
    List.filterMap_append, List.filterMap_append, filterMap_message?_log, List.append_nil,
    filterMap_message?_saidWith _ (length_deliveries s limit w _)]

/-- Without a log nothing is left of a schedule. -/
lemma Scheduled.eq_of_unlogged (h : Scheduled s limit w result)
    (hnone : ∀ o ∈ outcomes s limit w.tree s.files, o.log = []) :
    result = w.run (oneByOne s limit) := by
  obtain ⟨merged, hmerged, rfl⟩ := h.exists_eq
  have hnil : merged = [] := by
    apply List.perm_nil.1
    apply hmerged.perm.trans
    rw [List.flatten_eq_nil_iff.2 (List.forall_mem_map.2 hnone)]
  simp only [run_oneByOne, hnil, World.logged_nil,
    saidWith_of_nil (length_deliveries s limit w _) hnone]

end

/-! ## The schedule of one worker after another -/

section
variable {s : Settings} {limit : Option Level} {w : World σ} {arrivals : List (Nat × Outcome)}

/-- A worker logs its lines and hands over. -/
lemma runs_logging (before : List Worker) (number : Nat) (path : Path) (rest : List Worker)
    (o : Outcome) (ls : List LogLine) :
    Pool.Runs s limit ⟨w, before ++ ⟨number, path, .logging o ls⟩ :: rest, arrivals⟩
      ⟨w.logged ls, before ++ ⟨number, path, .done⟩ :: rest, arrivals ++ [(number, o)]⟩ := by
  induction ls generalizing w with
  | nil =>
    rw [World.logged_nil]
    exact .single (.handOver before number rest)
  | cons l ls ih =>
    have hl : w.logged (l :: ls) = (w.logged [l]).logged ls := w.logged_append [l] ls
    rw [hl]
    exact .head (.log before number rest (w.run_say_log l)) ih

/-- A worker takes all of its steps. -/
lemma runs_worker (before : List Worker) (number : Nat) (path : Path) (rest : List Worker) :
    Pool.Runs s limit ⟨w, before ++ ⟨number, path, .waiting⟩ :: rest, arrivals⟩
      ⟨w.logged (outcome s limit path (w.tree.read path)).log,
        before ++ ⟨number, path, .done⟩ :: rest,
        arrivals ++ [(number, outcome s limit path (w.tree.read path))]⟩ :=
  .head (.read before number path rest (w.run_read path))
    (runs_logging before number path rest _ _)

/-- One worker after another takes all of its steps. -/
lemma runs_workers (before : List Worker) (jobs : List (Path × Nat)) (w : World σ)
    (arrivals : List (Nat × Outcome)) :
    Pool.Runs s limit
      ⟨w, before ++ jobs.map fun job => ⟨job.2, job.1, .waiting⟩, arrivals⟩
      ⟨w.logged ((outcomes s limit w.tree (jobs.map Prod.fst)).flatMap Outcome.log),
        before ++ jobs.map fun job => ⟨job.2, job.1, .done⟩,
        arrivals ++ jobs.map fun job => (job.2, outcome s limit job.1 (w.tree.read job.1))⟩ := by
  induction jobs generalizing before w arrivals with
  | nil =>
    simp only [outcomes, List.map_nil, List.flatMap_nil, List.append_nil, World.logged_nil]
    exact .refl
  | cons job jobs ih =>
    refine .trans (runs_worker before job.2 job.1 _) ?_
    have hrest := ih (before ++ [⟨job.2, job.1, .done⟩])
      (w.logged (outcome s limit job.1 (w.tree.read job.1)).log)
      (arrivals ++ [(job.2, outcome s limit job.1 (w.tree.read job.1))])
    simp only [List.append_assoc, List.singleton_append, World.tree_logged,
      ← World.logged_append] at hrest
    exact hrest

/-- Working on inputs one after another logs what there is about them. -/
lemma run_mapM_work (jobs : List (Path × Nat)) (w : World σ) :
    w.run (jobs.mapM fun (path, number) => do return (number, ← work s limit path)) =
      (jobs.map fun job => (job.2, outcome s limit job.1 (w.tree.read job.1)),
        w.logged ((outcomes s limit w.tree (jobs.map Prod.fst)).flatMap Outcome.log)) := by
  induction jobs generalizing w with
  | nil => simp [outcomes]
  | cons job jobs ih =>
    have hjob : w.run (do return (job.2, ← work s limit job.1)) =
        ((job.2, outcome s limit job.1 (w.tree.read job.1)),
          w.logged (outcome s limit job.1 (w.tree.read job.1)).log) := by
      simp [work]
    rw [List.mapM_cons, World.run_bind, hjob, World.run_bind, ih]
    simp [outcomes, ← World.logged_append]

/-- Handling all inputs delivers the outcomes for them behind their logs. -/
lemma run_handle (s : Settings) (limit : Option Level) (w : World σ) :
    w.run (handle s limit) =
      (w.logged ((outcomes s limit w.tree s.files).flatMap Outcome.log)).run
        (deliverAll s limit (outcomes s limit w.tree s.files)) := by
  rw [handle, World.run_bind, run_mapM_work, List.zipIdx_map_fst]
  exact congrArg (fun os => World.run _ (deliverAll s limit os)) (inOrder_of_perm (.refl _))

/-- The command as it runs here is one of the schedules. -/
lemma scheduled_handle (s : Settings) (limit : Option Level) (w : World σ) :
    Scheduled s limit w (w.run (handle s limit)) := by
  have hruns : (Pool.start s w).Runs s limit _ := runs_workers [] s.files.zipIdx w []
  refine ⟨_, hruns, ?_, ?_⟩
  · intro worker hworker
    obtain ⟨job, -, rfl⟩ := List.mem_map.1 hworker
    rfl
  · rw [handle, World.run_bind, run_mapM_work]
    rfl

end

/-! ## The result of every schedule -/

/-- The command fails at an input, after the given ones: the input has no result, or the result
cannot be written as those before it leave the world. -/
def FailsAt (s : Settings) (limit : Option Level) (w : World σ) (before : List Path)
    (path : Path) : Prop :=
  result? s w.tree path = none ∨
    ∃ text, result? s w.tree path = some text ∧
      Unwritten s (w.run (oneByOne { s with files := before } limit)).2 path text

section
variable {s : Settings} {limit : Option Level} {w : World σ}

/-- Handling some of the inputs delivers the outcomes for them. -/
lemma run_oneByOne_files (files : List Path) :
    w.run (oneByOne { s with files := files } limit) =
      let done := deliveries s limit w (outcomes s limit w.tree files)
      (done.1.any Prod.fst, done.2.after (w.notices ++
        (saidWith Outcome.log (outcomes s limit w.tree files) done.1).toArray)) := by
  rw [run_oneByOne]
  exact congrArg (fun done : List (Bool × List Notice) × World σ =>
    (done.1.any Prod.fst, done.2.after (w.notices ++
      (saidWith Outcome.log (outcomes s limit w.tree files) done.1).toArray)))
    (deliveries_files s limit files w _)

/-- Without an input that has no result, the others print and write the same. -/
lemma oneByOne_remove {before rest : List Path} {path : Path}
    (hs : s.files = before ++ path :: rest) (hpath : result? s w.tree path = none) :
    (w.run (oneByOne s limit)).2.stdout =
        (w.run (oneByOne { s with files := before ++ rest } limit)).2.stdout ∧
      (w.run (oneByOne s limit)).2.tree =
        (w.run (oneByOne { s with files := before ++ rest } limit)).2.tree := by
  obtain ⟨message, hmessage⟩ := exists_error_outcome s limit hpath
  have hdone : (deliveries s limit w (outcomes s limit w.tree s.files)).2 =
      (deliveries s limit w (outcomes s limit w.tree (before ++ rest))).2 := by
    rw [hs, outcomes, List.map_append, List.map_cons, deliveries_remove _ _ _ _ _ hmessage,
      ← List.map_append]
    rfl
  rw [run_oneByOne, run_oneByOne_files]
  simp only [hdone, World.stdout_after, World.tree_after, and_self]

/-- Handling the inputs one by one fails exactly if the command fails at one of them. -/
lemma failed_oneByOne_iff :
    (w.run (oneByOne s limit)).1 = true ↔
      ∃ before path rest, s.files = before ++ path :: rest ∧ FailsAt s limit w before path := by
  rw [run_oneByOne]
  refine (any_deliveries_iff s limit w _).trans ⟨?_, ?_⟩
  · rintro ⟨before, o, rest, hos, hlost⟩
    obtain ⟨paths, more, hfiles, rfl, hmore⟩ := List.map_eq_append_iff.1 hos
    obtain ⟨path, paths', rfl, rfl, -⟩ := List.map_eq_cons_iff.1 hmore
    refine ⟨paths, path, paths', hfiles, ?_⟩
    rw [FailsAt, run_oneByOne_files]
    exact (lost_outcome_iff s limit w.tree _ path).1 hlost
  · rintro ⟨before, path, rest, hfiles, hfails⟩
    rw [FailsAt, run_oneByOne_files] at hfails
    refine ⟨_, _, outcomes s limit w.tree rest, ?_,
      (lost_outcome_iff s limit w.tree _ path).2 hfails⟩
    rw [hfiles, outcomes, List.map_append]
    rfl

end

/-- The command comes to one result under every schedule. Its output, its messages, the files and
the exit status are those of handling the inputs one by one after all of them are read. On the error
output the workers' lines come first, each input's own in their order, and then what is said about
each input in turn; one by one, each input's lines come before what is said about it. So where
nothing is logged the whole error output is the same. An input without a result changes nothing for
the others, and the status tells whether the command fails at an input. -/
theorem result_under_every_schedule (s : Settings) (limit : Option Level) (w : World σ) :
    Scheduled s limit w (w.run (handle s limit)) ∧
    ∀ result, Scheduled s limit w result →
      let expected := w.run (oneByOne s limit)
      let lines (path : Path) := (outcome s limit path (w.tree.read path)).log
      (result.2.stdout = expected.2.stdout ∧ result.2.tree = expected.2.tree ∧
        exitStatus result.1 = exitStatus expected.1 ∧
        result.2.messages = expected.2.messages) ∧
      (∃ merged said, Interleaved (s.files.map lines) merged ∧ said.length = s.files.length ∧
        result.2.notices.toList = w.notices.toList ++ merged.map .log ++ said.flatten ∧
        expected.2.notices.toList = w.notices.toList ++
          (List.zipWith (fun path own => (lines path).map .log ++ own) s.files said).flatten) ∧
      ((∀ path ∈ s.files, lines path = []) → result = expected) ∧
      (∀ before path rest, s.files = before ++ path :: rest → result? s w.tree path = none →
        let others := w.run (oneByOne { s with files := before ++ rest } limit)
        result.2.stdout = others.2.stdout ∧ result.2.tree = others.2.tree) ∧
      ((∃ before path rest, s.files = before ++ path :: rest ∧ FailsAt s limit w before path) →
        exitStatus result.1 = 1) ∧
      ((¬ ∃ before path rest, s.files = before ++ path :: rest ∧ FailsAt s limit w before path) →
        exitStatus result.1 = 0) := by
  refine ⟨scheduled_handle s limit w, fun result h => ?_⟩
  intro expected lines
  obtain ⟨hfailed, hstdout, htree⟩ := h.same
  obtain ⟨merged, hmerged, hnotices⟩ := h.exists_notices
  have hlogs : (outcomes s limit w.tree s.files).map Outcome.log = s.files.map lines := by
    rw [outcomes, List.map_map]
    rfl
  refine ⟨⟨hstdout, htree, congrArg exitStatus hfailed, h.messages_eq⟩, ?_, fun hnone => ?_,
    fun before path rest hs hpath => ?_, fun hfails => ?_, fun hfails => ?_⟩
  · refine ⟨merged, (deliveries s limit w (outcomes s limit w.tree s.files)).1.map Prod.snd,
      hlogs ▸ hmerged, ?_, hnotices, ?_⟩
    · rw [List.length_map, length_deliveries, outcomes, List.length_map]
    · refine (notices_oneByOne s limit w).trans ?_
      simp [saidWith, outcomes, List.zipWith_map_left, List.zipWith_map_right, lines]
  · exact h.eq_of_unlogged (List.forall_mem_map.2 hnone)
  · rw [hstdout, htree]
    exact oneByOne_remove hs hpath
  · rw [hfailed, failed_oneByOne_iff.2 hfails]
    rfl
  · rw [← failed_oneByOne_iff] at hfails
    rw [hfailed, exitStatus, if_neg hfails]

/-- The second input is ready before the first one, which does not exist. -/
theorem result_under_every_schedule_reversed :
    let s : Settings := { files := [.of "A.jack", .of "B.jack"] }
    let source := "class B { function void f() { do g(); return; } }"
    let w : World String := ⟨⟨[((Path.of "B.jack").parts, .file (Utf8.bytes source))]⟩, "", #[]⟩
    let limit := some Level.warn
    ∃ p, (Pool.start s w).Runs s limit p ∧ p.Finished ∧ p.arrivals.map Prod.fst = [1, 0] ∧
      let result := p.world.run (deliverAll s limit (inOrder p.arrivals))
      result.2.stdout = "// B.jack\nfunction B.f 0\npush pointer 0\ncall B.g 1\npop temp 0\n" ++
          "push constant 0\nreturn\n" ∧
        result.2.messages =
          ["A.jack: cannot read file: No such file or directory (os error 2)"] ∧
        result.2.tree = w.tree ∧ exitStatus result.1 = 1 := by
  intro s source w limit
  let first : Worker := ⟨0, .of "A.jack", .waiting⟩
  obtain ⟨p, hruns, hfinished, harrivals⟩ :
      ∃ p, (Pool.start s w).Runs s limit p ∧ p.Finished ∧ p.arrivals.map Prod.fst = [1, 0] :=
    ⟨_, .trans (runs_worker [first] 1 (.of "B.jack") []) (runs_worker [] 0 (.of "A.jack") _),
      by simp [Pool.Finished], rfl⟩
  obtain ⟨⟨hstdout, htree, hstatus, hmessages⟩, -⟩ :=
    (result_under_every_schedule s limit w).2 _ ⟨p, hruns, hfinished, rfl⟩
  refine ⟨p, hruns, hfinished, harrivals, ?_⟩
  simp only [hstdout, hmessages, htree, hstatus]
  decide +kernel

/-- The error output is not the one of handling the inputs one by one. The warning for the second
input comes before the line that the first one is checked. And where both inputs are warned about
and the first one fails, either warning can be the first, while one by one the message about the
failure stands between them. -/
theorem stderr_under_schedules :
    let stderr (result : Bool × World String) := result.2.stderr fun l => l.text ++ "\n"
    let world (a b : String) : World String :=
      ⟨⟨[((Path.of "A.jack").parts, .file (Utf8.bytes a)),
        ((Path.of "B.jack").parts, .file (Utf8.bytes b))]⟩, "", #[]⟩
    let s : Settings := { files := [.of "A.jack", .of "B.jack"] }
    let checked := world "class A { function void f() { return; } }"
      "class B { function void f() { do g(); return; } }"
    let warned := world "class A { function void f() { do g(); return } }"
      "class B { function void f() { do g(); return; } }"
    (∃ result, Scheduled { s with check := true } (some .info) checked result ∧
      stderr result ≠ stderr (checked.run (oneByOne { s with check := true } (some .info)))) ∧
    ∃ first second, Scheduled s (some .warn) warned first ∧
      Scheduled s (some .warn) warned second ∧ stderr first ≠ stderr second ∧
      stderr first ≠ stderr (warned.run (oneByOne s (some .warn))) ∧
      stderr second ≠ stderr (warned.run (oneByOne s (some .warn))) := by
  intro stderr world s checked warned
  let waiting : Worker := ⟨0, .of "A.jack", .waiting⟩
  let log (path : Path) := (outcome s (some .warn) path (warned.tree.read path)).log
  -- The second worker takes all of its steps before the first one does.
  obtain ⟨p, hruns, hfinished, hworld⟩ : ∃ p, (Pool.start s warned).Runs s (some .warn) p ∧
      p.Finished ∧ p.world = (warned.logged (log (.of "B.jack"))).logged (log (.of "A.jack")) :=
    ⟨_, .trans (runs_worker [waiting] 1 (.of "B.jack") []) (runs_worker [] 0 (.of "A.jack") _),
      by simp [Pool.Finished], rfl⟩
  refine ⟨⟨_, scheduled_handle _ _ _, ?_⟩, _, _, scheduled_handle _ _ _,
    ⟨p, hruns, hfinished, rfl⟩, ?_, ?_, ?_⟩
  · rw [run_handle]
    decide +kernel
  · rw [run_handle, hfinished.inOrder_arrivals hruns, hworld]
    decide +kernel
  · rw [run_handle]
    decide +kernel
  · rw [hfinished.inOrder_arrivals hruns, hworld]
    decide +kernel

end Jack.Command
