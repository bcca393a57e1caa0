import Jack.Proofs.Command.Paths

/-!
# What file operations leave

Making directories changes nothing that exists (`keeps_makeDirs`). A file that is written holds what
was written to it (`read_write`), and the other files of its directory are as before
(`read_write_other`).
-/

namespace Jack.Command

open Text

namespace FileTree

variable {t u v : FileTree} {place q : Place} {e : Entry}

/-! ## Places -/

/-- What is put at a place is there, unless the place is always a directory. -/
lemma entry?_put_self (h : isFixed place = false) : entry? (t.put place e) place = some e := by
  have hkey (x : Place × Entry) :
      ((if x.1 == place then (place, e) else x).1 == place) = (x.1 == place) := by
    split
    · next hx => rw [hx, beq_self_eq_true]
    · rfl
  unfold put entry?
  rw [h]
  simp only [Bool.false_eq_true, if_false]
  split
  · next hany =>
    obtain ⟨x, hx⟩ := Option.isSome_iff_exists.1 (List.find?_isSome.2 (List.any_eq_true.1 hany))
    have hplace : x.1 = place := by simpa using List.find?_some hx
    simp only [List.find?_map, Function.comp_def, hkey, hx]
    simp [hplace]
  · next hany =>
    have hnone : t.entries.find? (·.1 == place) = none := by
      rw [List.find?_eq_none]
      exact fun x hx hplace => hany (List.any_eq_true.2 ⟨x, hx, hplace⟩)
    simp [List.find?_append, hnone]

/-- Putting something at one place leaves the other places. -/
lemma entry?_put_of_ne (h : q ≠ place) : entry? (t.put place e) q = t.entry? q := by
  have hkey (x : Place × Entry) :
      ((if x.1 == place then (place, e) else x).1 == q) = (x.1 == q) := by
    split
    · next hx =>
      rw [eq_of_beq hx]
    · rfl
  have hplace : (place == q) = false := beq_false_of_ne h.symm
  unfold put entry?
  split
  · rfl
  split
  · simp only [List.find?_map, Function.comp_def, hkey, Option.map_map]
    cases hx : t.entries.find? (·.1 == q) with
    | none => rfl
    | some x =>
      have hq : x.1 = q := by simpa using List.find?_some hx
      simp [hq, h]
  · simp [List.find?_append, hplace]

/-! ## Reading and writing -/

/-- A path can be read where it leads to the place of a file, and then the bytes are its. -/
lemma read_eq_ok {path : Path} {bytes : List UInt8} :
    t.read path = .ok bytes ↔ checkPath path = .ok () ∧ ∃ place,
      t.locate path.parts = .ok place ∧ t.entry? place = some (.file bytes) := by
  unfold read
  cases checkPath path with
  | error err => exact ⟨nofun, nofun⟩
  | ok _ =>
    cases t.locate (path.parts) with
    | error err => exact ⟨nofun, nofun⟩
    | ok place =>
      simp only [bind, Except.bind, true_and, Except.ok.injEq, exists_eq_left']
      split
      · next he => simp [he, throw, throwThe, MonadExceptOf.throw]
      · next he => simp [he, throw, throwThe, MonadExceptOf.throw]
      · next he => simp [he, pure, Except.pure]

/-- A write that succeeds puts the bytes at the place the path leads to, which is no directory. -/
lemma write_eq_ok {path : Path} {bytes : List UInt8} (h : t.write path bytes = (.ok (), u)) :
    checkPath path = .ok () ∧ ∃ place, t.locate path.parts = .ok place ∧
      t.entry? place ≠ some .dir ∧ u = t.put place (.file bytes) := by
  unfold write at h
  cases hc : checkPath path with
  | error err =>
    rw [hc] at h
    cases h
  | ok _ =>
    rw [hc] at h
    cases hl : t.locate path.parts with
    | error err =>
      rw [hl] at h
      cases h
    | ok place =>
      rw [hl] at h
      -- A directory at the place is refused, and anything else is written over.
      refine ⟨rfl, place, rfl, ?_⟩
      simp only [SeqRight.seqRight, Except.bind] at h
      split at h
      · cases h
      · next hne =>
        cases h
        exact ⟨hne, rfl⟩

/-- A file that is put where no directory stands leaves the directories. -/
lemma extends_put {bytes : List UInt8} (h : t.entry? place ≠ some .dir) :
    t.Extends (t.put place (.file bytes)) := by
  intro q hq
  rw [entry?_put_of_ne, hq]
  rintro rfl
  exact h hq

/-- What has been written is read again. -/
lemma read_write {path : Path} {bytes : List UInt8} (h : t.write path bytes = (.ok (), u)) :
    u.read path = .ok bytes := by
  obtain ⟨hc, place, hl, hdir, rfl⟩ := write_eq_ok h
  rw [read_eq_ok]
  exact ⟨hc, place, (extends_put hdir).locate hl, entry?_put_self (isFixed_eq_false hdir)⟩

/-- All that stands in the first tree stands in the second one. -/
def Keeps (t u : FileTree) : Prop := ∀ place e, t.entry? place = some e → u.entry? place = some e

/-- A tree keeps itself. -/
lemma Keeps.refl (t : FileTree) : t.Keeps t := fun _ _ => id

/-- Keeping files carries over two steps. -/
lemma Keeps.trans (h : t.Keeps u) (h' : u.Keeps v) : t.Keeps v :=
  fun place e he => h' place e (h place e he)

/-- What could be read can still be read where files are kept. -/
lemma Keeps.read (h : t.Keeps u) {path : Path} {bytes : List UInt8}
    (hr : t.read path = .ok bytes) : u.read path = .ok bytes := by
  have hextends : t.Extends u := fun place => h place .dir
  rw [read_eq_ok] at hr ⊢
  obtain ⟨hc, place, hl, he⟩ := hr
  exact ⟨hc, place, hextends.locate hl, h place _ he⟩

/-- Making a directory keeps every file. -/
lemma keeps_makeDir {parts : List Name} (h : t.makeDir parts = .ok u) : t.Keeps u := by
  unfold makeDir at h
  cases hl : t.locate parts with
  | error err =>
    rw [hl] at h
    cases h
  | ok place =>
    rw [hl] at h
    cases he : t.entry? place with
    | some e =>
      simp only [bind, Except.bind, he] at h
      cases h
    | none =>
      simp only [bind, Except.bind, he] at h
      cases h
      intro q e hq
      rw [entry?_put_of_ne, hq]
      rintro rfl
      rw [he] at hq
      cases hq

/-- Making the first of some directories keeps every file. -/
lemma keeps_makeFirst (parts : List (List Name)) : t.Keeps (t.makeFirst parts).2 := by
  induction parts generalizing t with
  | nil => exact .refl t
  | cons first above ih =>
    unfold makeFirst
    split
    · next hmade => exact keeps_makeDir hmade
    · split
      · next hrest =>
        have hkeeps := ih (t := t)
        rw [hrest] at hkeeps
        exact hkeeps
      · next hrest =>
        have hkeeps := ih (t := t)
        rw [hrest] at hkeeps
        split
        · next hmade => exact hkeeps.trans (keeps_makeDir hmade)
        · exact hkeeps
    · exact .refl t

/-- Making directories changes no file. -/
lemma keeps_makeDirs (path : Path) : t.Keeps (t.makeDirs path).2 := by
  unfold makeDirs
  split
  · exact .refl t
  · exact keeps_makeFirst _

/-- Writing to another name in the directory leaves a file as it is. -/
lemma read_write_other {dir : Path} {name name' : String} {old bytes : List UInt8}
    (hn : ProperName (Utf8.bytes name)) (hn' : ProperName (Utf8.bytes name')) (hne : name ≠ name')
    (hr : t.read (dir.join name) = .ok old) (hw : t.write (dir.join name') bytes = (.ok (), u)) :
    u.read (dir.join name) = .ok old := by
  obtain ⟨front, hfront, hparts⟩ := dir.exists_parts_join
  rw [read_eq_ok, hparts name hn.slashless] at hr ⊢
  obtain ⟨hc, place, hl, he⟩ := hr
  obtain ⟨-, place', hl', hdir, rfl⟩ := write_eq_ok hw
  rw [hparts name' hn'.slashless] at hl'
  obtain ⟨d, hd, rfl⟩ := locate_concat hfront hn hl
  obtain ⟨d', hd', rfl⟩ := locate_concat hfront hn' hl'
  obtain rfl := Except.ok.inj (hd.symm.trans hd')
  refine ⟨hc, _, (extends_put hdir).locate hl, ?_⟩
  rw [entry?_put_of_ne, he]
  intro heq
  exact hne (Utf8.bytes_injective (List.singleton_inj.1 (List.append_cancel_left heq)))

/-- A path at which a file is read ends with a name, so that its stem holds no slash. -/
lemma slash_not_mem_of_read {path : Path} {bytes : List UInt8} (h : t.read path = .ok bytes) :
    '/' ∉ path.shownStem.toList := by
  obtain ⟨-, place, hl, he⟩ := read_eq_ok.1 h
  cases hname : path.fileName? with
  | some name => exact Path.slash_not_mem_shownStem hname
  | none =>
    rw [entry?_of_fileName?_eq_none hname hl] at he
    cases he

end FileTree

end Jack.Command
