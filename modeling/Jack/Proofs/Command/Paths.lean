import Jack.Command.Files
import Jack.Proofs.Text.Utf8
import Mathlib.Data.List.Induction

/-!
# Where paths lead

A path is followed part by part, from directory to directory (`follow_cons_eq_ok`). As directories
stay what they are, a path that leads somewhere goes on leading there (`Extends.locate`), and a path
below a directory leads to the place with its name below the place of the directory. A path without
a file name leads to a directory (`entry?_of_fileName?_eq_none`), so one that leads to a file ends
with a name.
-/

namespace Jack.Command

open Text

/-! ## Names and paths -/

/-- A name that a file can have. -/
structure ProperName (name : Name) : Prop where
  ne_nil : name ≠ []
  ne_here : name ≠ .here
  ne_up : name ≠ .up
  slashless : slash ∉ name

namespace Path

/-- A slash ends a part of a path and starts the next one. -/
lemma parts_append (front name : List UInt8) (h : slash ∉ name) :
    parts ⟨front ++ slash :: name⟩ = parts ⟨front⟩ ++ [name] := by
  have hname : pieces (· == slash) name = [name] :=
    pieces_eq_singleton fun b hb => beq_false_of_ne (ne_of_mem_of_not_mem hb h)
  have hcut : pieces (· == slash) (front ++ slash :: name) =
      pieces (· == slash) front ++ pieces (· == slash) name := pieces_append_cons rfl _ _
  rw [parts, hcut, hname]
  rfl

/-- Every path has a part. -/
lemma parts_ne_nil (path : Path) : path.parts ≠ [] := pieces_ne_nil _ _

/-- A path below a directory is a path to the directory and a name. -/
lemma exists_parts_join (dir : Path) :
    ∃ front, front ≠ [] ∧ ∀ name : String, slash ∉ Utf8.bytes name →
      (dir.join name).parts = front ++ [Utf8.bytes name] := by
  by_cases hslash : dir.bytes.getLast? = some slash
  · obtain ⟨front, hfront⟩ := List.getLast?_eq_some_iff.1 hslash
    refine ⟨parts ⟨front⟩, parts_ne_nil _, fun name hname => ?_⟩
    have hjoin : dir.join name = ⟨front ++ slash :: Utf8.bytes name⟩ := by
      rw [join, if_pos (by simp [hslash]), hfront, List.append_assoc]
      rfl
    rw [hjoin, parts_append _ _ hname]
  · refine ⟨dir.parts, parts_ne_nil _, fun name hname => ?_⟩
    rw [join, if_neg (by simpa using hslash), parts_append _ _ hname]

/-- The parts of a path hold no slash. -/
lemma slash_not_mem_of_mem_parts {path : Path} {part : Name} (h : part ∈ path.parts) :
    slash ∉ part := by
  intro hslash
  exact absurd (eq_false_of_mem_pieces h slash hslash) (by decide)

/-- The name that a path ends with is one of its parts. -/
lemma mem_parts_of_fileName? {path : Path} {name : Name} (h : path.fileName? = some name) :
    name ∈ path.parts := by
  have hmem : name ∈ path.components := by
    unfold fileName? at h
    split at h
    · next found hlast =>
      split at h
      · cases h
      · cases h
        exact List.mem_of_getLast? hlast
    · cases h
  unfold components at hmem
  split at hmem
  · cases hmem
  · next first rest hparts =>
    rw [hparts]
    obtain rfl | hmem := List.mem_cons.1 hmem
    · exact List.mem_cons_self
    · exact List.mem_cons_of_mem first (List.mem_filter.1 hmem |>.1)

end Path

/-- The bytes of a stem come from the name. -/
lemma Name.mem_of_mem_stem {name : Name} {b : UInt8} (h : b ∈ name.stem) : b ∈ name := by
  unfold Name.stem at h
  simp only at h
  split at h
  · next first stem hdrop =>
    split at h
    · exact h
    · rw [List.mem_reverse] at h
      have hmem := List.mem_of_mem_drop (hdrop ▸ List.mem_cons_of_mem first h)
      exact List.mem_reverse.1 hmem
  · exact h

/-- The stem of a path that ends with a name holds no slash, also where it is shown. -/
lemma Path.slash_not_mem_shownStem {path : Path} {name : Name} (h : path.fileName? = some name) :
    '/' ∉ path.shownStem.toList := by
  rw [shownStem, stem, h]
  intro hslash
  have hmem : slash ∈ name.stem := (Utf8.decoded_lossy name.stem).mem_of_mem (by decide) hslash
  exact slash_not_mem_of_mem_parts (mem_parts_of_fileName? h) (Name.mem_of_mem_stem hmem)

namespace FileTree

variable {t u : FileTree} {here place : Place}

/-! ## Following paths -/

/-- The fixed places are directories. -/
lemma entry?_of_isFixed (h : isFixed place = true) : t.entry? place = some .dir := if_pos h

/-- A place that is no directory is not fixed. -/
lemma isFixed_eq_false (h : t.entry? place ≠ some .dir) : isFixed place = false := by
  rw [← Bool.not_eq_true]
  exact fun hfixed => h (entry?_of_isFixed hfixed)

/-- A part of a path leads from one place to another. -/
inductive Leads (here : Place) : Name → Place → Prop where
  | stay {part} :
    Path.isIdle part = true →
    Leads here part here
  | up :
    Leads here .up (parentPlace here)
  | down {part} :
    Path.isIdle part = false → part ≠ .up → part.length ≤ maxNameBytes →
    Leads here part (here ++ [part])

/-- Following a path takes one part, from a directory, and then the rest. -/
lemma follow_cons_eq_ok {part : Name} {parts : List Name} :
    t.follow here (part :: parts) = .ok place ↔
      t.entry? here = some .dir ∧
        ∃ next, Leads here part next ∧ t.follow next parts = .ok place := by
  rw [follow]
  constructor
  · intro h
    -- Only a directory can be followed from; then the part stays, goes up or goes down.
    split at h
    · cases h
    · cases h
    next hdir =>
    refine ⟨hdir, ?_⟩
    split at h
    · next hstay => exact ⟨here, .stay hstay, h⟩
    next hstay =>
    split at h
    · next hup =>
      obtain rfl := eq_of_beq hup
      exact ⟨_, .up, h⟩
    next hup =>
    split at h
    · next hlength =>
      have hup : part ≠ .up := by simpa using hup
      exact ⟨_, .down (Bool.eq_false_iff.2 hstay) hup hlength, h⟩
    · cases h
  · rintro ⟨hdir, next, hleads, h⟩
    rw [hdir]
    cases hleads with
    | stay hidle => simpa [hidle] using h
    | up => exact h
    | down hidle hup hlength => simpa [hidle, hup, hlength] using h

/-- Following a path of two halves goes by the place the first one leads to. -/
lemma follow_append_eq_ok {xs ys : List Name} :
    t.follow here (xs ++ ys) = .ok place ↔
      ∃ mid, t.follow here xs = .ok mid ∧ t.follow mid ys = .ok place := by
  induction xs generalizing here with
  | nil => exact ⟨fun h => ⟨here, rfl, h⟩, fun ⟨_, hnil, h⟩ => by cases hnil; exact h⟩
  | cons x xs ih =>
    rw [List.cons_append, follow_cons_eq_ok]
    constructor
    · rintro ⟨hdir, next, hleads, h⟩
      obtain ⟨mid, hxs, hys⟩ := ih.1 h
      exact ⟨mid, follow_cons_eq_ok.2 ⟨hdir, next, hleads, hxs⟩, hys⟩
    · rintro ⟨mid, hxs, hys⟩
      obtain ⟨hdir, next, hleads, h⟩ := follow_cons_eq_ok.1 hxs
      exact ⟨hdir, next, hleads, ih.2 ⟨mid, h, hys⟩⟩

/-- Directories of the first tree are directories of the second one. -/
def Extends (t u : FileTree) : Prop :=
  ∀ place, t.entry? place = some .dir → u.entry? place = some .dir

/-- A path leads to the same place in a tree with more directories. -/
lemma Extends.follow (h : t.Extends u) {parts : List Name}
    (hf : t.follow here parts = .ok place) : u.follow here parts = .ok place := by
  induction parts generalizing here with
  | nil => exact hf
  | cons part parts ih =>
    obtain ⟨hdir, next, hleads, hrest⟩ := follow_cons_eq_ok.1 hf
    exact follow_cons_eq_ok.2 ⟨h here hdir, next, hleads, ih hrest⟩

/-- Where the parts of a path start. -/
def startOf (parts : List Name) : Place := if parts.head? = some [] then [[]] else []

/-- A path is followed from the place it starts from. -/
lemma locate_eq (parts : List Name) : t.locate parts = t.follow (startOf parts) parts := by
  unfold locate startOf
  simp only [beq_iff_eq]
  split <;> rfl

/-- A path that leads somewhere leads there in every tree with the same directories. -/
lemma Extends.locate (h : t.Extends u) {parts : List Name} (hl : t.locate parts = .ok place) :
    u.locate parts = .ok place := by
  rw [locate_eq] at hl ⊢
  exact h.follow hl

/-- A name leads to the place with that name. -/
lemma Leads.eq_concat {name : Name} (hn : ProperName name) (h : Leads here name place) :
    place = here ++ [name] := by
  cases h with
  | stay hidle =>
    rw [Path.isIdle, Bool.or_eq_true, beq_iff_eq, beq_iff_eq] at hidle
    obtain hnil | hhere := hidle
    · exact absurd hnil hn.ne_nil
    · exact absurd hhere hn.ne_here
  | up => exact absurd rfl hn.ne_up
  | down => rfl

/-- A name in a directory leads to the place with that name below the place of the directory. -/
lemma locate_concat {front : List Name} (hfront : front ≠ []) {name : Name}
    (hn : ProperName name) (h : t.locate (front ++ [name]) = .ok place) :
    ∃ d, t.locate front = .ok d ∧ place = d ++ [name] := by
  have hstart : startOf (front ++ [name]) = startOf front := by
    obtain ⟨first, rest, rfl⟩ := List.exists_cons_of_ne_nil hfront
    rfl
  rw [locate_eq, hstart] at h
  obtain ⟨d, hd, h⟩ := follow_append_eq_ok.1 h
  obtain ⟨-, next, hleads, hnext⟩ := follow_cons_eq_ok.1 h
  cases hnext
  exact ⟨d, (locate_eq front).trans hd, hleads.eq_concat hn⟩

/-! ## Names of files -/

/-- All places above a place are directories. -/
def Rooted (t : FileTree) (place : Place) : Prop :=
  ∀ p, p <+: place → p ≠ place → t.entry? p = some .dir

/-- One part further from a directory is rooted again. -/
lemma Rooted.concat (h : t.Rooted here) (hdir : t.entry? here = some .dir) (part : Name) :
    t.Rooted (here ++ [part]) := by
  intro p hp hne
  have hp' := (List.prefix_concat_iff.1 hp).resolve_left hne
  by_cases heq : p = here
  · rw [heq, hdir]
  · exact h p hp' heq

/-- Taking one part from a rooted directory leads to a rooted place. -/
lemma Leads.rooted {part : Name} {next : Place} (hl : Leads here part next)
    (h : t.Rooted here) (hdir : t.entry? here = some .dir) : t.Rooted next := by
  cases hl with
  | stay => exact h
  | down => exact h.concat hdir part
  | up =>
    unfold parentPlace
    split
    · exact h
    split
    · exact h.concat hdir .up
    · intro p hp hne
      refine h p (hp.trans (List.dropLast_prefix here)) ?_
      rintro rfl
      have hlength := hp.length_le
      rw [List.length_dropLast] at hlength
      obtain rfl : p = [] := List.length_eq_zero_iff.1 (by omega)
      exact hne rfl

/-- Following a path from a rooted place leads to a rooted place. -/
lemma Rooted.follow {parts : List Name} (h : t.Rooted here)
    (hf : t.follow here parts = .ok place) : t.Rooted place := by
  induction parts generalizing here with
  | nil =>
    cases hf
    exact h
  | cons part parts ih =>
    obtain ⟨hdir, next, hleads, hrest⟩ := follow_cons_eq_ok.1 hf
    exact ih (hleads.rooted h hdir) hrest

/-- The place above a rooted one is a directory. -/
lemma Rooted.entry?_parentPlace (h : t.Rooted here) : t.entry? (parentPlace here) = some .dir := by
  unfold parentPlace
  split
  · next hroot => exact entry?_of_isFixed (by simp [isFixed, hroot])
  split
  · next habove =>
    refine entry?_of_isFixed ?_
    rw [isFixed, Bool.or_eq_true]
    exact .inl (by simpa [isAbove] using habove)
  · next habove =>
    refine h _ (List.dropLast_prefix here) fun heq => ?_
    have hlength := congrArg List.length heq
    rw [List.length_dropLast] at hlength
    obtain rfl : here = [] := List.length_eq_zero_iff.1 (by omega)
    exact habove rfl

/-- Paths start from rooted directories. -/
lemma rooted_startOf (parts : List Name) :
    t.Rooted (startOf parts) ∧ t.entry? (startOf parts) = some .dir := by
  have habove : t.entry? [] = some .dir := entry?_of_isFixed rfl
  have hnil : t.Rooted [] := fun p hp hne => absurd (List.prefix_nil.1 hp) hne
  unfold startOf
  split
  · exact ⟨hnil.concat habove [], entry?_of_isFixed rfl⟩
  · exact ⟨hnil, habove⟩

/-- Parts that go nowhere lead back to where they start. -/
lemma follow_of_idle {parts : List Name} (h : ∀ p ∈ parts, Path.isIdle p = true)
    (hf : t.follow here parts = .ok place) : place = here := by
  induction parts generalizing here with
  | nil =>
    cases hf
    rfl
  | cons part parts ih =>
    obtain ⟨hpart, hparts⟩ := List.forall_mem_cons.1 h
    obtain ⟨-, next, hleads, hrest⟩ := follow_cons_eq_ok.1 hf
    rw [ih hparts hrest]
    cases hleads with
    | stay => rfl
    | up => exact absurd hpart (by decide)
    | down hidle => exact absurd hpart (Bool.eq_false_iff.1 hidle)

/-- Parts that end without a name lead to a directory. -/
lemma Rooted.entry?_of_nameless {last : Name} {parts : List Name} (h : t.Rooted here)
    (hlast : Path.isIdle last = true ∨ last = .up) (hidle : ∀ p ∈ parts, Path.isIdle p = true)
    (hf : t.follow here (last :: parts) = .ok place) :
    t.entry? place = some .dir := by
  obtain ⟨hdir, next, hleads, hrest⟩ := follow_cons_eq_ok.1 hf
  rw [follow_of_idle hidle hrest]
  cases hleads with
  | stay => exact hdir
  | up => exact h.entry?_parentPlace
  | down hidle hup => exact absurd hlast (not_or.2 ⟨Bool.eq_false_iff.1 hidle, hup⟩)

/-- Parts are idle, or the last one of them that is not can be singled out. -/
lemma exists_last_active (parts : List Name) :
    (∀ p ∈ parts, Path.isIdle p = true) ∧ parts.filter (!Path.isIdle ·) = [] ∨
      ∃ front last more, parts = front ++ last :: more ∧ (∀ p ∈ more, Path.isIdle p = true) ∧
        (parts.filter (!Path.isIdle ·)).getLast? = some last := by
  -- From the end, as the last part that is not idle is looked for.
  induction parts using List.reverseRecOn with
  | nil => exact .inl ⟨nofun, rfl⟩
  | append_singleton parts p ih =>
    cases hp : Path.isIdle p with
    | true =>
      have hfilter : [p].filter (!Path.isIdle ·) = [] := by simp [hp]
      rw [List.filter_append, hfilter, List.append_nil]
      obtain ⟨hidle, hnil⟩ | ⟨front, last, more, rfl, hmore, hlast⟩ := ih
      · refine .inl ⟨?_, hnil⟩
        rw [List.forall_mem_append, List.forall_mem_singleton]
        exact ⟨hidle, hp⟩
      · refine .inr ⟨front, last, more ++ [p], by simp, ?_, hlast⟩
        rw [List.forall_mem_append, List.forall_mem_singleton]
        exact ⟨hmore, hp⟩
    | false =>
      refine .inr ⟨parts, p, [], rfl, nofun, ?_⟩
      have hfilter : [p].filter (!Path.isIdle ·) = [p] := by simp [hp]
      rw [List.filter_append, hfilter, List.getLast?_concat]

/-- The last part of a path without a file name names nothing new. -/
lemma idle_or_up_of_fileName? {path : Path} {last : Name} (h : path.fileName? = none)
    (hlast : path.components.getLast? = some last) :
    Path.isIdle last = true ∨ last = .up := by
  unfold Path.fileName? at h
  rw [hlast] at h
  simp only [ite_eq_left_iff, reduceCtorEq, imp_false, not_not, Bool.or_eq_true, beq_iff_eq] at h
  exact h.symm

/-- A path without a file name leads to a directory, if it leads anywhere. -/
lemma entry?_of_fileName?_eq_none {path : Path} (h : path.fileName? = none)
    (hl : t.locate path.parts = .ok place) : t.entry? place = some .dir := by
  obtain ⟨first, rest, hparts⟩ := List.exists_cons_of_ne_nil path.parts_ne_nil
  have hcomponents : path.components = first :: rest.filter (!Path.isIdle ·) := by
    rw [Path.components, hparts]
  obtain ⟨hrooted, -⟩ := rooted_startOf (t := t) path.parts
  rw [locate_eq] at hl
  obtain ⟨hidle, hnil⟩ | ⟨front, last, more, rfl, hmore, hlast⟩ := exists_last_active rest
  · have hfirst : path.components.getLast? = some first := by
      rw [hcomponents, hnil, List.getLast?_singleton]
    rw [hparts] at hrooted hl
    exact hrooted.entry?_of_nameless (idle_or_up_of_fileName? h hfirst) hidle hl
  · have hlast' : path.components.getLast? = some last := by
      rw [hcomponents, List.getLast?_cons, hlast, Option.getD_some]
    rw [hparts, ← List.cons_append] at hrooted hl
    obtain ⟨mid, hmid, hf⟩ := follow_append_eq_ok.1 hl
    exact (hrooted.follow hmid).entry?_of_nameless
      (idle_or_up_of_fileName? h hlast') hmore hf

end FileTree

end Jack.Command
