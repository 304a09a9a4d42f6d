import Scaffold.Proofs.Backup.Migrations
import Scaffold.Proofs.Disk.Faults
import Scaffold.Proofs.Generation.Turn

/-!
# What a turn does to the disk

The path of an artifact leads through words to a file whose name ends in `.php`. In its turn that
file is written, or nothing is; directories may come above it, and nothing goes.
-/

namespace Scaffold

/-! ## Paths of artifacts -/

theorem Moment.mem_migrationStamp {m : Moment} {c : Char} (h : c ∈ m.migrationStamp.toList) :
    c.isDigit = true ∨ c = '_' := by
  have htext (s : String) : toString s = s := rfl
  have hunder : ∀ c ∈ "_".toList, c = '_' := by simp
  simp only [migrationStamp, htext, String.toList_append, List.mem_append] at h
  rcases h with (((((h | h) | h) | h) | h) | h) | ((h | h) | h)
  · exact .inl (isDigit_of_mem_toString c h)
  · exact .inr (hunder c h)
  · exact .inl (isDigit_of_mem_twoDigits c h)
  · exact .inr (hunder c h)
  · exact .inl (isDigit_of_mem_twoDigits c h)
  · exact .inr (hunder c h)
  · exact .inl (isDigit_of_mem_twoDigits c h)
  · exact .inl (isDigit_of_mem_twoDigits c h)
  · exact .inl (isDigit_of_mem_twoDigits c h)

namespace Migration

variable {d : Disk} {root p : Path} {table : String} {m : Moment}

theorem IsTable.mem_newName (h : IsTable table) {m : Moment} {c : Char}
    (hc : c ∈ (newName table m).toList) : c.isAlphanum = true ∨ c = '_' ∨ c = '.' := by
  rw [newName, String.toList_append, List.mem_append] at hc
  rcases hc with hc | hc
  · rcases Moment.mem_migrationStamp hc with hdigit | hunder
    · exact .inl (by simp [Char.isAlphanum, hdigit])
    · exact .inr (.inl hunder)
  · exact h.mem_ending hc

theorem IsTable.isTarget_newName (h : IsTable table) (m : Moment) :
    (folder.child (newName table m)).IsTarget := by
  refine isTarget_child (endsWith_php (endsWith_newName table m)) fun hslash ↦ ?_
  have := h.mem_newName hslash
  revert this
  decide

/-- The path of a migration leads to a name in its folder that ends as those of the table do. -/
theorem exists_child_of_path (h : path d root table m = .ok p) :
    ∃ name, p = folder.child name ∧ Text.endsWith name (ending table) = true ∧
      (name = newName table m ∧ existing d root table = .ok [] ∨
        (d.node? (d.resolve (root ++ folder) ++ [name])).isSome ∧
          ∃ rest, existing d root table = .ok (name :: rest)) := by
  rw [path] at h
  rcases hnames : existing d root table with e | - | ⟨name, rest⟩
  · rw [hnames] at h
    cases h
  · rw [hnames] at h
    obtain rfl := Except.ok.inj h
    exact ⟨_, rfl, endsWith_newName table m, .inl ⟨rfl, rfl⟩⟩
  · rw [hnames] at h
    obtain rfl := Except.ok.inj h
    obtain ⟨-, hsome, hend⟩ := mem_existing hnames (List.mem_cons_self)
    exact ⟨name, rfl, hend, .inr ⟨hsome, rest, rfl⟩⟩

/-- Only a folder whose path is too long keeps the path of a migration from being worked out. -/
theorem refuses_of_path {e : DiskError} (h : path d root table m = .error e) :
    d.Refuses (root ++ folder) ∧ e = ⟨.nameTooLong, root ++ folder⟩ := by
  unfold path at h
  cases hnames : existing d root table with
  | ok names =>
    rw [hnames] at h
    cases names <;> cases h
  | error fault =>
    rw [hnames] at h
    obtain rfl := Except.error.inj h
    unfold existing at hnames
    cases hdir : d.isDir (root ++ folder) with
    | ok isDir =>
      rw [hdir] at hnames
      cases isDir <;> cases hnames
    | error fault' =>
      rw [hdir] at hnames
      obtain rfl := Except.error.inj hnames
      exact Disk.refuses_of_holds hdir

end Migration

theorem Task.refuses_of_pathOn {x : Task} {root : Path} {d : Disk} {e : DiskError}
    (h : x.pathOn root d = .error e) :
    d.Refuses (root ++ Migration.folder) ∧ e = ⟨.nameTooLong, root ++ Migration.folder⟩ := by
  unfold pathOn at h
  split at h
  · cases h
  · exact Migration.refuses_of_path h

/-- The path of an artifact is a target. -/
theorem Task.isTarget {x : Task} {root p : Path} {d : Disk} (hwf : d.WellFormed)
    (hword : x.config.studly = "" ∨ IsWord x.config.studly) (h : x.pathOn root d = .ok p) :
    p.IsTarget := by
  rw [pathOn] at h
  rcases hfixed : x.artifact.fixedPath? x.config with - | q
  · rw [hfixed] at h
    obtain ⟨name, rfl, hend, ⟨rfl, -⟩ | ⟨hsome, -⟩⟩ := Migration.exists_child_of_path h
    · exact (Migration.isTable_table _).isTarget_newName _
    · obtain ⟨n, hn⟩ := Option.isSome_iff_exists.1 hsome
      exact Migration.isTarget_child (Migration.endsWith_php hend) (hwf.parent _ _ _ hn).2.noSlash
  · rw [hfixed] at h
    obtain rfl := Except.ok.inj h
    exact (Artifact.copyOf_fixedPath? hword hfixed).original

/-- The artifact may lie at the path: at the one it has, or at any name that ends as the migrations
of its table do. -/
def Artifact.LiesAt (a : Artifact) (c : Configuration) (p : Path) : Prop :=
  match a.fixedPath? c with
  | some q => p = q
  | none => ∃ name, p = Migration.folder.child name ∧
      Text.endsWith name (Migration.ending c.table) = true

theorem Task.liesAt {x : Task} {root p : Path} {d : Disk} (h : x.pathOn root d = .ok p) :
    x.artifact.LiesAt x.config p := by
  rw [pathOn] at h
  rw [Artifact.LiesAt]
  rcases hfixed : x.artifact.fixedPath? x.config with - | q
  · rw [hfixed] at h
    obtain ⟨name, hp, hend, -⟩ := Migration.exists_child_of_path h
    exact ⟨name, hp, hend⟩
  · rw [hfixed] at h
    exact (Except.ok.inj h).symm

/-- Artifacts lie among the code of the project or in its database. -/
theorem Artifact.LiesAt.head {a : Artifact} {c : Configuration} {p : Path} (h : a.LiesAt c p)
    (hword : c.studly = "" ∨ IsWord c.studly) :
    p.parts.head? = some "app" ∨ p.parts.head? = some "database" := by
  rw [LiesAt] at h
  rcases hfixed : a.fixedPath? c with - | q
  · rw [hfixed] at h
    obtain ⟨name, rfl, -⟩ := h
    exact .inr rfl
  · rw [hfixed] at h
    have ha : a ≠ migration := by
      rintro rfl
      cases hfixed
    rw [fixedPath?_eq hword ha] at hfixed
    obtain rfl : p = q := h
    obtain rfl := Option.some.inj hfixed
    cases a <;> simp [dirs]

/-- The path of an artifact is short, and nothing in it is a NUL. -/
theorem Task.clean {x : Task} {root p : Path} {d : Disk} (hwf : d.WellFormed)
    (hword : x.config.studly = "" ∨ IsWord x.config.studly) (h : x.pathOn root d = .ok p) :
    Disk.Clean p ∧ p.parts.length ≤ 5 := by
  have hchars {name : String} (hname : ∀ ch ∈ name.toList, ch.isAlphanum = true ∨ ch = '_' ∨ ch = '.') :
      '\x00' ∉ name.toList := fun hmem ↦ by
    have := hname _ hmem
    revert this
    decide
  rw [pathOn] at h
  rcases hfixed : x.artifact.fixedPath? x.config with - | q
  · rw [hfixed] at h
    obtain ⟨name, rfl, hend, hname⟩ := Migration.exists_child_of_path h
    refine ⟨List.forall_mem_append.2 ⟨by decide, List.forall_mem_singleton.2 ?_⟩, by
      simp [Migration.folder, Path.child]⟩
    rcases hname with ⟨rfl, -⟩ | ⟨hsome, -⟩
    · exact hchars fun ch ↦ (Migration.isTable_table _).mem_newName
    · obtain ⟨n, hn⟩ := Option.isSome_iff_exists.1 hsome
      exact (hwf.parent _ _ _ hn).2.noNul
  · rw [hfixed] at h
    obtain rfl := Except.ok.inj h
    have hcopy := Artifact.copyOf_fixedPath? hword hfixed
    refine ⟨?_, hcopy.short⟩
    have ha : x.artifact ≠ .migration := by
      intro ha
      rw [ha] at hfixed
      cases hfixed
    rw [Artifact.fixedPath?_eq hword ha] at hfixed
    obtain rfl := Option.some.inj hfixed
    refine List.forall_mem_append.2 ⟨fun name hname ↦ ?_, List.forall_mem_singleton.2 ?_⟩
    · exact (Artifact.isWord_of_mem_dirs hword name hname).not_mem (by decide)
    · exact hchars fun ch hch ↦ (Artifact.mem_fileName hword hch).imp_right .inr

/-! ## Writing targets -/

open Disk DiskOp

theorem Path.IsTarget.grows_writeFile {o root : Path} {d : Disk} {content : ByteArray}
    {dirs : Location → Prop} (ho : o.IsTarget) (hwf : d.WellFormed) (hroot : root.Spelled)
    (hdirs : ∀ a, a <+: (root ++ o).parent.parts →
      d.node? (d.resolve ⟨root.slashes, a⟩) = none → dirs (d.resolve ⟨root.slashes, a⟩)) :
    Ends (writeFile (root ++ o) content true) d
      (fun _ d' ↦ Grows dirs (· = d.resolve (root ++ o)) d d' ∧
        d'.locate (root ++ o) = .ok (d.resolve (root ++ o)) ∧
          d'.file? (d.resolve (root ++ o)) = some content)
      fun _ d' ↦ Grows dirs nowhere d d' := by
  have hspelled := ho.spelled_append hroot
  obtain ⟨names, file, heq, -⟩ := id ho
  have hparts : root ++ o = ⟨root.slashes, (root.parts ++ names) ++ [file]⟩ := by
    rw [ho.append_eq, heq, List.append_assoc]
  have hparent : (root ++ o).parent = ⟨root.slashes, root.parts ++ names⟩ := by
    rw [hparts, Path.parent, List.dropLast_concat]
  rw [hparent] at hdirs
  rw [hparts] at hspelled ⊢
  exact DiskOp.grows_writeFile hwf hspelled
    (changes_makeDirs hwf (fun part hpart ↦ hspelled part (List.mem_append_left _ hpart)) hdirs)

/-- The locations above another one. -/
def Above (place l : Location) : Prop := l <+: place ∧ l ≠ place

theorem Path.IsTarget.grows_writeFile_of_anchored {o root : Path} {d : Disk} {content : ByteArray}
    (ho : o.IsTarget) (hwf : d.WellFormed) (hroot : root.Spelled) (hanchor : d.Anchored root) :
    Ends (writeFile (root ++ o) content true) d
      (fun _ d' ↦ Grows (Above (d.resolve (root ++ o))) (· = d.resolve (root ++ o)) d d' ∧
        d'.locate (root ++ o) = .ok (d.resolve (root ++ o)) ∧
          d'.file? (d.resolve (root ++ o)) = some content)
      fun _ d' ↦ Grows (Above (d.resolve (root ++ o))) nowhere d d' := by
  refine ho.grows_writeFile hwf hroot fun a ha hnone ↦ ?_
  obtain ⟨names, file, heq, -⟩ := id ho
  have hparent : (root ++ o).parent = ⟨root.slashes, root.parts ++ names⟩ := by
    rw [ho.append_eq, heq, Path.parent]
    simp only [← List.append_assoc, List.dropLast_concat]
  have hplain : ".." ∉ names := fun h ↦ ho.plain (by rw [heq]; exact List.mem_append_left _ h)
  have hanchor' : d.Anchored ⟨root.slashes, root.parts ++ names⟩ :=
    (anchoredFrom_append _ _ _ _).2 ⟨hanchor, anchoredFrom_of_plain _ _ hplain⟩
  rw [hparent] at ha
  have hpre := prefix_resolve hwf hanchor' ha hnone
  rw [resolve_append _ _ _ hplain] at hpre
  have hplace : d.resolve (root ++ o) = d.resolve root ++ names ++ [file] := by
    rw [ho.resolve_eq, heq, List.append_assoc]
  rw [hplace]
  refine ⟨hpre.trans (List.prefix_append _ _), fun h ↦ ?_⟩
  have := hpre.length_le
  rw [show d.resolve ⟨root.slashes, a⟩ = _ from h] at this
  simp at this

/-! ## The effect of a turn -/

namespace Turn

variable {g : Generator} (x : Turn g)

/-- The turn writes its artifact. -/
def Writes : Prop := x.result = .ok .created ∨ x.result = .ok .replaced

/-- Where the artifact lies. -/
def place : Location := x.before.resolve (g.root ++ x.path)

/-- An artifact is only written where nothing is or what is there may be replaced. -/
theorem permits_of_writes (h : x.Writes) :
    ∃ there, x.before.isThere (g.root ++ x.path) = .ok there ∧
      (there = true → g.writer.permits x.asked x.path = true) := by
  obtain ⟨task, path, before, asked, result, after, hlocated, htakes⟩ := x
  cases htakes with
  | placed hthere hpermits => exact ⟨_, hthere, hpermits⟩
  | unanswered | kept | unrendered | refused => rcases h with h | h <;> cases h

/-- A turn is one safe write of what was rendered, at most. -/
theorem cases_effect (good : String → Disk → Prop) (bad : Disk → Prop) (hrefl : bad x.before)
    (hwrite : ∀ text, Ends (writeFile (g.root ++ x.path) (Text.encode text) true) x.before
      (fun _ d ↦ good text d) fun _ d ↦ bad d) :
    (x.Writes ∧ ∃ rendering, (x.task.content g.stubs).resultOn x.before = .ok rendering ∧
      good rendering.text x.after) ∨ ¬x.Writes ∧ bad x.after := by
  obtain ⟨task, path, before, asked, result, after, hlocated, htakes⟩ := x
  cases htakes with
  | unanswered | kept | unrendered => exact .inr ⟨by simp [Writes], hrefl⟩
  | refused hthere hpermits hcontent hrun =>
    exact .inr ⟨by simp [Writes], (ends_of_run_error hrun).1 (hwrite _)⟩
  | @placed there rendering _ hthere hpermits hcontent hrun =>
    exact .inl ⟨by cases there <;> simp [Writes], rendering, hcontent,
      (ends_of_run_ok hrun).1 (hwrite _)⟩

variable {x}

/-- A turn writes the file at its path, or changes no file. -/
theorem grows (hwf : x.before.WellFormed) (hroot : g.root.Spelled) (hp : x.path.IsTarget) :
    Grows everywhere (fun l ↦ x.Writes ∧ l = x.place) x.before x.after ∧
      (x.Writes → x.after.isThere (g.root ++ x.path) = .ok true) := by
  have heffect := x.cases_effect
    (fun _ d ↦ Grows everywhere (· = x.place) x.before d ∧
      d.isThere (g.root ++ x.path) = .ok true)
    (fun d ↦ Grows everywhere nowhere x.before d) (.refl hwf) fun text ↦
      (hp.grows_writeFile hwf hroot fun _ _ _ ↦ trivial).mono
        (fun _ d' ⟨hgrows, hlocate, hfile⟩ ↦ ⟨hgrows, isThere_eq_true_iff.2 ?_⟩) fun _ _ ↦ id
  · rcases heffect with ⟨hwrites, -, -, hgrows, hthere⟩ | ⟨hno, hgrows⟩
    · exact ⟨hgrows.mono (fun _ ↦ id) fun l hl ↦ ⟨hwrites, hl⟩, fun _ ↦ hthere⟩
    · exact ⟨hgrows.mono (fun _ ↦ id) fun _ ↦ False.elim, fun h ↦ absurd h hno⟩
  · rw [hgrows.resolve_eq]
    refine ⟨hlocate, ?_⟩
    rw [file?_eq_some_iff.1 hfile]
    rfl

/-- In an anchored project directories only come above the artifact, and the file holds what was
rendered. -/
theorem grows_of_anchored (hwf : x.before.WellFormed) (hroot : g.root.Spelled)
    (hanchor : x.before.Anchored g.root) (hp : x.path.IsTarget) :
    Grows (Above x.place) (fun l ↦ x.Writes ∧ l = x.place) x.before x.after ∧
      (x.Writes → ∃ rendering, (x.task.content g.stubs).resultOn x.before = .ok rendering ∧
        x.after.file? x.place = some (Text.encode rendering.text)) := by
  have heffect := x.cases_effect
    (fun text d ↦ Grows (Above x.place) (· = x.place) x.before d ∧
      d.file? x.place = some (Text.encode text))
    (fun d ↦ Grows (Above x.place) nowhere x.before d) (.refl hwf) fun text ↦
      (hp.grows_writeFile_of_anchored hwf hroot hanchor).mono
        (fun _ _ h ↦ ⟨h.1, h.2.2⟩) fun _ _ ↦ id
  rcases heffect with ⟨hwrites, rendering, hcontent, hgrows, hfile⟩ | ⟨hno, hgrows⟩
  · exact ⟨hgrows.mono (fun _ ↦ id) fun l hl ↦ ⟨hwrites, hl⟩, fun _ ↦ ⟨rendering, hcontent, hfile⟩⟩
  · exact ⟨hgrows.mono (fun _ ↦ id) fun _ ↦ False.elim, fun h ↦ absurd h hno⟩

/-- After a turn that did not fail something is at the path of the artifact. -/
theorem isThere_of_ending {status : ArtifactStatus} (hwf : x.before.WellFormed)
    (hroot : g.root.Spelled) (hp : x.path.IsTarget) (h : x.ending = .ok status)
    (hstatus : status ≠ .failed) : x.after.isThere (g.root ++ x.path) = .ok true := by
  have hgrows := x.grows hwf hroot hp
  by_cases hwrites : x.Writes
  · exact hgrows.2 hwrites
  · obtain ⟨task, path, before, asked, result, after, hlocated, htakes⟩ := x
    cases htakes with
    | kept hthere => exact hthere
    | placed => exact absurd (by simp only [Writes]; split <;> simp) hwrites
    | unanswered | unrendered | refused =>
      simp only [ending] at h
      split at h
      · exact absurd (Except.ok.inj h).symm hstatus
      · cases h

end Turn

end Scaffold
