import Jack.Command.Run
import Mathlib.Tactic.Lemma

/-!
# Runs in a world

What the operations of the command do to a world. None of them looks at the error output: whatever
has been said before, an act does the same and says the same behind it (`Oblivious`). This is closed
under putting acts behind each other, so it holds of delivering an outcome (`oblivious_deliver`).
-/

namespace Jack.Command

variable {σ α β : Type}

/-- The text of a message about a failure. -/
def Notice.message? : Notice → Option String
  | .message text => some text
  | .log _ => none

/-- There is no message in a log. -/
@[simp] lemma filterMap_message?_log (lines : List LogLine) :
    (lines.map .log).filterMap Notice.message? = [] := by
  simp [Notice.message?]

namespace World

/-- Carries out an act in a world. -/
def run (w : World σ) (act : StateM (World σ) α) : α × World σ := (StateT.run act w).run

/-- A world where something else has been said first. -/
def after (w : World σ) (before : Array Notice) : World σ :=
  { w with notices := before ++ w.notices }

/-- A world where nothing has been said. -/
def quiet (w : World σ) : World σ := { w with notices := #[] }

/-- A world where lines have been logged last. -/
def logged (w : World σ) (lines : List LogLine) : World σ :=
  { w with notices := w.notices ++ (lines.map .log).toArray }

/-- The messages about failures, in order. -/
def messages (w : World σ) : List String := w.notices.toList.filterMap Notice.message?

/-- The error output, for a format of the lines of the log. -/
def stderr (format : LogLine → String) (w : World σ) : String :=
  String.join (w.notices.toList.map (Notice.text format))

variable (w : World σ)

/-- What has been said does not change the files. -/
@[simp] lemma tree_after (before : Array Notice) : (w.after before).tree = w.tree := rfl

/-- What has been said does not change the standard output. -/
@[simp] lemma stdout_after (before : Array Notice) : (w.after before).stdout = w.stdout := rfl

/-- Forgetting what has been said does not change the files. -/
@[simp] lemma tree_quiet : w.quiet.tree = w.tree := rfl

/-- Forgetting what has been said does not change the standard output. -/
@[simp] lemma stdout_quiet : w.quiet.stdout = w.stdout := rfl

/-- Logging does not change the files. -/
@[simp] lemma tree_logged (lines : List LogLine) : (w.logged lines).tree = w.tree := rfl

/-- A world is a quiet one behind all that has been said. -/
@[simp] lemma quiet_after : w.quiet.after w.notices = w := by
  simp [quiet, after]

/-- What has been said before is forgotten as well. -/
@[simp] lemma after_quiet (before : Array Notice) : (w.after before).quiet = w.quiet := rfl

/-- Lines that are logged last make no difference to a quiet world. -/
@[simp] lemma logged_quiet (lines : List LogLine) : (w.logged lines).quiet = w.quiet := rfl

/-- Logging no lines changes nothing. -/
@[simp] lemma logged_nil : w.logged [] = w := by
  simp [logged]

/-- Lines are logged one part after another. -/
lemma logged_append (ls ls' : List LogLine) : w.logged (ls ++ ls') = (w.logged ls).logged ls' := by
  simp [logged]

/-! ## Acts -/

/-- Doing nothing leaves the world as it is. -/
@[simp] lemma run_pure (a : α) : w.run (pure a) = (a, w) := rfl

/-- What comes next runs in the world that is left. -/
@[simp] lemma run_bind (act : StateM (World σ) α) (next : α → StateM (World σ) β) :
    w.run (act >>= next) = (w.run act).2.run (next (w.run act).1) := rfl

/-- Changing a result leaves the world as it is. -/
@[simp] lemma run_map (act : StateM (World σ) α) (f : α → β) :
    w.run (f <$> act) = (f (w.run act).1, (w.run act).2) := rfl

/-- An act that can fail goes on only where it has not failed. -/
lemma run_bind_except (act : ExceptT FileError (StateM (World σ)) α)
    (next : α → ExceptT FileError (StateM (World σ)) β) :
    w.run (act >>= next).run =
      match w.run act.run with
      | (.ok a, w') => w'.run (next a).run
      | (.error e, w') => (.error e, w') := by
  rw [ExceptT.run_bind, run_bind]
  cases h : w.run act.run with
  | mk result w' => cases result <;> rfl

/-- Acts that leave the world alone do so in a row. -/
lemma run_mapM {act : α → StateM (World σ) β} {f : α → β} (h : ∀ a, w.run (act a) = (f a, w))
    (as : List α) : w.run (as.mapM act) = (as.map f, w) := by
  induction as with
  | nil => rfl
  | cons a as ih =>
    rw [List.mapM_cons, run_bind, h, run_bind, ih]
    rfl

section
variable [Sink σ]

/-- Reading a path leaves the world as it is. -/
@[simp] lemma run_read (path : Path) :
    w.run (Host.read path).run = (w.tree.read path, w) := rfl

/-- A notice is said behind those said before. -/
lemma run_say (notice : Notice) :
    w.run (Host.say notice) = ((), { w with notices := w.notices.push notice }) := rfl

/-- A line that is said is logged last. -/
@[simp] lemma run_say_log (l : LogLine) : w.run (Host.say (.log l)) = ((), w.logged [l]) := by
  simp [run_say, logged]

/-- Logging puts the lines behind what has been said. -/
@[simp] lemma run_logAll (lines : List LogLine) : w.run (logAll lines) = ((), w.logged lines) := by
  induction lines generalizing w with
  | nil => rw [logged_nil]; rfl
  | cons l lines ih =>
    show (w.run (Host.say (.log l))).2.run (logAll lines) = ((), w.logged ([l] ++ lines))
    rw [run_say_log, ih, logged_append]

end

end World

/-! ## What is said before -/

/-- An act that does the same whatever has been said before. -/
def Oblivious (act : StateM (World σ) α) : Prop :=
  ∀ (w : World σ) (before : Array Notice),
    (w.after before).run act = ((w.run act).1, (w.run act).2.after before)

/-- Doing nothing does not look at what has been said. -/
lemma Oblivious.pure (a : α) : Oblivious (pure a : StateM (World σ) α) := fun _ _ => rfl

/-- Acts behind each other, each of which does not care. -/
lemma Oblivious.bind {act : StateM (World σ) α} {next : α → StateM (World σ) β}
    (h : Oblivious act) (hnext : ∀ a, Oblivious (next a)) : Oblivious (act >>= next) := by
  intro w before
  rw [World.run_bind, h w before]
  exact hnext _ _ before

/-- The same for acts that can fail. -/
lemma Oblivious.bind_except {act : ExceptT FileError (StateM (World σ)) α}
    {next : α → ExceptT FileError (StateM (World σ)) β} (h : Oblivious act.run)
    (hnext : ∀ a, Oblivious (next a).run) : Oblivious (act >>= next).run := by
  intro w before
  rw [World.run_bind_except, World.run_bind_except, h w before]
  cases w.run act.run with
  | mk result w' =>
    cases result with
    | ok a => exact hnext a w' before
    | error e => rfl

section
variable [Sink σ]

/-- What is said comes behind what has been said before. -/
lemma oblivious_say (notice : Notice) : Oblivious (Host.say notice : StateM (World σ) Unit) := by
  intro w before
  have hpush : (before ++ w.notices).push notice = before ++ w.notices.push notice := by simp
  rw [World.run_say, World.run_say, World.after, World.after, hpush]

/-- Logging does not look at what has been said. -/
lemma oblivious_logAll (lines : List LogLine) :
    Oblivious (logAll lines : StateM (World σ) Unit) := by
  induction lines with
  | nil => exact .pure ()
  | cons l lines ih => exact (oblivious_say (.log l)).bind fun _ => ih

/-- Printing does not look at what has been said. -/
lemma oblivious_print (text : String) :
    Oblivious (Host.print text : ExceptT FileError (StateM (World σ)) Unit).run :=
  fun _ _ => rfl

/-- Handing out a text does not look at what has been said. -/
lemma oblivious_emit (s : Settings) (limit : Option Level) (path : Path) (text : String) :
    Oblivious (emit s limit path text : ExceptT FileError (StateM (World σ)) Unit).run := by
  unfold emit
  split
  · have hmake (dir : Path) :
        Oblivious (Host.makeDirs dir : ExceptT FileError (StateM (World σ)) Unit).run :=
      fun _ _ => rfl
    have hwrite (path : Path) (bytes : List UInt8) :
        Oblivious (Host.write path bytes : ExceptT FileError (StateM (World σ)) Unit).run :=
      fun _ _ => rfl
    refine (hmake _).bind_except fun _ => (hwrite _ _).bind_except fun _ => ?_
    exact (oblivious_logAll _).bind fun _ => .pure _
  · split
    · exact (oblivious_print _).bind_except fun _ => oblivious_print text
    · exact oblivious_print text

/-- Delivering an outcome does the same whatever has been said before. -/
lemma oblivious_deliver (s : Settings) (limit : Option Level) (o : Outcome) :
    Oblivious (deliver s limit o : StateM (World σ) Bool) := by
  unfold deliver
  split
  · exact (oblivious_say _).bind fun _ => .pure true
  · split
    · exact (oblivious_logAll _).bind fun _ => .pure false
    · refine (oblivious_emit s limit _ _).bind fun result => ?_
      cases result with
      | ok _ => exact .pure false
      | error e => exact (oblivious_say _).bind fun _ => .pure true

end

end Jack.Command
