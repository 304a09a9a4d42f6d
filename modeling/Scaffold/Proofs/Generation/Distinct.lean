import Scaffold.Proofs.Generation.Again
import Scaffold.Proofs.Generation.Completion

/-!
# Files of their own

In a project in which nothing is generated yet every artifact gets a file of its own, unless the
migrations of a table also end as those of an entity that comes later: the later one is then taken
for generated.
-/

namespace Scaffold

open Disk DiskOp

/-! ## Apart from each other -/

theorem pairwise_of_split {α : Type} {R : α → α → Prop} {l : List α}
    (h : ∀ ys x zs, l = ys ++ x :: zs → ∀ y ∈ ys, R y x) : l.Pairwise R := by
  induction l with
  | nil => exact .nil
  | cons a rest ih =>
    refine List.pairwise_cons.2 ⟨fun b hb ↦ ?_, ih fun ys x zs hsplit y hy ↦
      h (a :: ys) x zs (by rw [hsplit, List.cons_append]) y (List.mem_cons_of_mem _ hy)⟩
    obtain ⟨ys, zs, rfl⟩ := List.append_of_mem hb
    exact h (a :: ys) b zs rfl a List.mem_cons_self

namespace Artifact

variable {a a' : Artifact} {c c' : Configuration}

theorem nodup_enabled (t : Toggles) : (enabled t).Nodup := List.Nodup.filter _ (by decide)

/-- Artifacts in the same directories are of one kind, or a resource and a collection of one
entity. -/
theorem eq_or_eq_of_dirs_eq {studly studly' : String} (h : a.dirs studly = a'.dirs studly') :
    a = a' ∨ studly = studly' := by
  have hlast (h : (if studly = "" then [] else [studly]) =
      if studly' = "" then [] else [studly']) : studly = studly' := by
    split at h <;> split at h <;> simp_all
  cases a <;> cases a' <;> first
    | exact .inl rfl
    | exact .inr (hlast (List.append_cancel_left h))
    | simp [dirs] at h

/-- The path of a file tells whose it is. -/
theorem eq_of_path_eq {studly studly' : String}
    (hdirs : a.dirs studly = a'.dirs studly')
    (hfile : studly ++ a.role ++ ".php" = studly' ++ a'.role ++ ".php") :
    studly = studly' ∧ a = a' := by
  have hname := congrArg String.toList hfile
  simp only [String.toList_append, List.append_cancel_right_eq] at hname
  rcases eq_or_eq_of_dirs_eq hdirs with rfl | rfl
  · exact ⟨String.toList_inj.1 (List.append_cancel_right hname), rfl⟩
  · refine ⟨rfl, ?_⟩
    have hrole := List.append_cancel_left hname
    cases a <;> cases a' <;> first
      | rfl
      | exact absurd hrole (by decide)
      | exact absurd hdirs (by simp [dirs])

/-- The path at which an artifact is generated if nothing is found. -/
def ownPath (a : Artifact) (c : Configuration) (m : Moment) : Path :=
  (a.fixedPath? c).getD (Migration.folder.child (Migration.newName c.table m))

/-- Artifacts that do not lie in the directory of migrations. -/
theorem dirs_ne_migrations {studly : String} (ha : a ≠ migration) :
    a.dirs studly ≠ migration.dirs "" := by
  intro h
  cases a <;> first
    | exact ha rfl
    | simp [dirs] at h

end Artifact

/-- The migrations of an entity do not end as those of one that comes later. -/
def Apart (x y : Configuration × Artifact) : Prop :=
  x.2 = .migration → y.2 = .migration →
    Text.endsWith (Migration.ending x.1.table) (Migration.ending y.1.table) = false

namespace Migration

/-- The name of a new migration ends as those of another table do exactly if all migrations of its
table do. -/
theorem endsWith_newName_iff {table table' : String} {m : Moment} :
    Text.endsWith (newName table m) (ending table') = true ↔
      Text.endsWith (ending table) (ending table') = true := by
  rw [endsWith_iff, endsWith_iff, newName, String.toList_append]
  refine ⟨fun h ↦ ?_, fun h ↦ h.trans (List.suffix_append _ _)⟩
  obtain ⟨start, hstart⟩ := h
  rcases List.append_eq_append_iff.1 hstart with ⟨more, hstamp, heq⟩ | ⟨more, -, heq⟩
  · -- The second character of an ending is no character of a stamp, and its first is no other one.
    have hletter : ∀ ch ∈ more, ch.isDigit = true ∨ ch = '_' := fun ch hch ↦
      Moment.mem_migrationStamp (hstamp ▸ List.mem_append_right _ hch)
    have hcreate (t : String) : ∃ rest, (ending t).toList = '_' :: 'c' :: rest :=
      ⟨_, toList_ending t⟩
    obtain ⟨rest, hrest⟩ := hcreate table
    obtain ⟨rest', hrest'⟩ := hcreate table'
    rw [hrest, hrest'] at heq
    rcases more with - | ⟨first, - | ⟨second, more⟩⟩
    · rw [hrest, hrest', heq, List.nil_append]
    · simp at heq
    · obtain rfl : 'c' = second := (List.cons.inj (List.cons.inj heq).2).1
      exact absurd (hletter 'c' (by simp)) (by decide)
  · rw [heq]
    exact List.suffix_append _ _

end Migration

namespace Artifact

variable {a a' : Artifact} {c c' : Configuration}

/-- What is generated for one artifact is not found for another one that comes later. -/
theorem not_liesAt_ownPath (hword : c.studly = "" ∨ IsWord c.studly)
    (hword' : c'.studly = "" ∨ IsWord c'.studly) (hne : c.studly = c'.studly → a ≠ a')
    (hapart : Apart (c, a) (c', a')) (m : Moment) : ¬a'.LiesAt c' (a.ownPath c m) := by
  have hmigration : Migration.folder.parts = migration.dirs "" := rfl
  have hsplit {dirs dirs' : List String} {file file' : String}
      (heq : (⟨0, dirs ++ [file]⟩ : Path) = ⟨0, dirs' ++ [file']⟩) : dirs = dirs' ∧ file = file' := by
    have hparts := congrArg Path.parts heq
    exact ⟨(List.append_inj' hparts rfl).1, List.singleton_inj.1 (List.append_inj' hparts rfl).2⟩
  intro hlies
  by_cases ha : a = migration <;> by_cases ha' : a' = migration
  · subst ha ha'
    obtain ⟨name, hname, hend⟩ := hlies
    obtain ⟨-, rfl⟩ := hsplit (hname : (⟨0, migration.dirs "" ++ [_]⟩ : Path) = ⟨0, migration.dirs "" ++ [_]⟩)
    rw [Migration.endsWith_newName_iff, hapart rfl rfl] at hend
    cases hend
  · subst ha
    rw [LiesAt, fixedPath?_eq hword' ha'] at hlies
    exact dirs_ne_migrations ha' (hsplit (hlies : (⟨0, migration.dirs "" ++ [_]⟩ : Path) = _)).1.symm
  · subst ha'
    obtain ⟨name, hname, -⟩ := hlies
    rw [ownPath, fixedPath?_eq hword ha, Option.getD_some] at hname
    exact dirs_ne_migrations ha (hsplit (hname : _ = (⟨0, migration.dirs "" ++ [_]⟩ : Path))).1
  · rw [LiesAt, ownPath, fixedPath?_eq hword ha, fixedPath?_eq hword' ha', Option.getD_some] at hlies
    obtain ⟨hdirs, hfile⟩ := hsplit hlies
    obtain ⟨hstudly, heq⟩ := eq_of_path_eq hdirs hfile
    exact hne hstudly heq

end Artifact

/-- What is found where an artifact may lie has a path like every artifact. -/
theorem Artifact.LiesAt.isTarget {a : Artifact} {c : Configuration} {d : Disk} {root p : Path}
    (h : a.LiesAt c p) (hword : c.studly = "" ∨ IsWord c.studly) (hwf : d.WellFormed)
    (hsome : (d.node? (d.resolve (root ++ p))).isSome) : p.IsTarget := by
  rw [LiesAt] at h
  rcases hfixed : a.fixedPath? c with - | q
  · rw [hfixed] at h
    obtain ⟨name, rfl, hend⟩ := h
    have hphp := Migration.endsWith_php hend
    rw [Migration.resolve_folder_child hphp] at hsome
    obtain ⟨n, hn⟩ := Option.isSome_iff_exists.1 hsome
    exact Migration.isTarget_child hphp (hwf.parent _ _ _ hn).2.noSlash
  · rw [hfixed] at h
    obtain rfl : p = q := h
    exact (Artifact.copyOf_fixedPath? hword hfixed).original

theorem Path.IsTarget.eq_of_parts_eq {o o' : Path} (h : o.IsTarget) (h' : o'.IsTarget)
    (hparts : o.parts = o'.parts) : o = o' := by
  obtain ⟨dirs, file, rfl, -⟩ := h
  obtain ⟨dirs', file', rfl, -⟩ := h'
  exact congrArg (Path.mk 0) hparts

/-! ## Turns in a bare project -/

/-- Nothing is where one of the artifacts may lie. -/
def Bare (g : Generator) (todo : List (Configuration × Artifact)) (d : Disk) : Prop :=
  ∀ x ∈ todo, ∀ p, x.2.LiesAt x.1 p → d.node? (d.resolve (g.root ++ p)) = none

/-- The artifacts of a run may not be taken for others. -/
def Distinguished (todo : List (Configuration × Artifact)) : Prop :=
  todo.Pairwise fun x y ↦ (x.1.studly = y.1.studly → x.2 ≠ y.2) ∧ Apart x y

/-- An artifact of which nothing is found gets its own path. -/
theorem Task.path_eq_of_bare {x : Task} {g : Generator} {d : Disk} {p : Path}
    (hbare : Bare g [(x.config, x.artifact)] d) (h : x.pathOn g.root d = .ok p) :
    p = x.artifact.ownPath x.config x.moment := by
  have hbare := List.forall_mem_singleton.1 hbare
  have hlies := Task.liesAt h
  rw [pathOn] at h
  rw [Artifact.ownPath]
  rcases hfixed : x.artifact.fixedPath? x.config with - | q
  · rw [hfixed] at h
    obtain ⟨name, rfl, hend, ⟨rfl, -⟩ | ⟨hsome, -⟩⟩ := Migration.exists_child_of_path h
    · rfl
    · have hnone := hbare _ hlies
      rw [Migration.resolve_folder_child (Migration.endsWith_php hend)] at hnone
      rw [hnone] at hsome
      cases hsome
  · rw [hfixed] at h
    exact (Except.ok.inj h).symm

namespace Turn

variable {g : Generator} {x : Turn g} {o : Path}

/-- In an anchored project a turn leaves alone what has another path. -/
theorem isSome_iff (hwf : x.before.WellFormed) (hanchor : x.before.Anchored g.root)
    (hp : x.path.IsTarget) (ho : o.IsTarget) (hne : o ≠ x.path) :
    (x.after.node? (x.after.resolve (g.root ++ o))).isSome ↔
      (x.before.node? (x.before.resolve (g.root ++ o))).isSome := by
  obtain ⟨hgrows, -⟩ := x.grows_of_anchored hwf g.spelled_root hanchor hp
  have hparts : o.parts ≠ x.path.parts := fun heq ↦ hne (ho.eq_of_parts_eq hp heq)
  rw [hgrows.resolve_eq]
  refine hgrows.isSome_iff ?_ ?_
  · rw [Above, place, ho.resolve_eq, hp.resolve_eq, List.prefix_append_right_inj]
    rintro ⟨hpre, -⟩
    exact hp.ne_of_prefix ho hpre hparts rfl
  · rw [place, ho.resolve_eq, hp.resolve_eq, List.append_cancel_left_eq]
    exact fun h ↦ hparts h.2

end Turn

/-- In a bare project every artifact has its own path when its turn comes, and nothing is there. -/
theorem Leads.bare {g : Generator} {xs : List (Turn g)} {d d' : Disk} {asked asked' : List String}
    (h : Leads g xs d asked d' asked') (hwf : d.WellFormed) (hanchor : d.Anchored g.root)
    (hwords : ∀ x ∈ xs, x.task.config.studly = "" ∨ IsWord x.task.config.studly)
    (hbare : Bare g (xs.map fun x ↦ (x.task.config, x.task.artifact)) d)
    (hdistinguished : Distinguished (xs.map fun x ↦ (x.task.config, x.task.artifact))) :
    ∀ x ∈ xs, x.path = x.task.artifact.ownPath x.task.config x.task.moment ∧
      x.before.node? x.place = none := by
  induction h with
  | stay => simp
  | @turn x rest d' asked' hrest ih =>
    rw [List.map_cons] at hbare hdistinguished
    obtain ⟨hx, hpairs⟩ := List.pairwise_cons.1 hdistinguished
    have hpath := Task.isTarget hwf (hwords x List.mem_cons_self) x.located
    have hown : x.path = x.task.artifact.ownPath x.task.config x.task.moment :=
      Task.path_eq_of_bare (fun y hy ↦ hbare y (by simp_all)) x.located
    have hnone : x.before.node? x.place = none :=
      hbare _ List.mem_cons_self _ (Task.liesAt x.located)
    obtain ⟨hgrows, -⟩ := x.grows_of_anchored hwf g.spelled_root hanchor hpath
    refine List.forall_mem_cons.2 ⟨⟨hown, hnone⟩, ih hgrows.wellFormed (hgrows.anchored hanchor)
      (fun y hy ↦ hwords y (List.mem_cons_of_mem _ hy)) (fun y hy p hlies ↦ ?_) hpairs⟩
    -- Whatever may be taken for a later artifact is not what this turn has written.
    have hword : y.1.studly = "" ∨ IsWord y.1.studly := by
      obtain ⟨z, hz, rfl⟩ := List.mem_map.1 hy
      exact hwords z (List.mem_cons_of_mem _ hz)
    rw [← Option.not_isSome_iff_eq_none]
    intro hsome
    have ho := hlies.isTarget hword hgrows.wellFormed hsome
    obtain ⟨hne, hapart⟩ := hx y hy
    have hother : p ≠ x.path := by
      rintro rfl
      rw [hown] at hlies
      exact Artifact.not_liesAt_ownPath (hwords x List.mem_cons_self) hword hne hapart _ hlies
    rw [x.isSome_iff hwf hanchor hpath ho hother, hbare y (List.mem_cons_of_mem _ hy) p hlies] at hsome
    cases hsome

/-- In a bare project no two artifacts come to the same path. -/
theorem Leads.nodup_path {g : Generator} {xs : List (Turn g)} {d d' : Disk}
    {asked asked' : List String} (h : Leads g xs d asked d' asked') (hwf : d.WellFormed)
    (hanchor : d.Anchored g.root)
    (hwords : ∀ x ∈ xs, x.task.config.studly = "" ∨ IsWord x.task.config.studly)
    (hbare : Bare g (xs.map fun x ↦ (x.task.config, x.task.artifact)) d)
    (hdistinguished : Distinguished (xs.map fun x ↦ (x.task.config, x.task.artifact))) :
    (xs.map (·.path)).Nodup := by
  have hown := h.bare hwf hanchor hwords hbare hdistinguished
  refine List.pairwise_map.2 ((List.pairwise_map.1 hdistinguished).imp_of_mem ?_)
  rintro y x hy hx ⟨hne, hapart⟩ heq
  have hlies := Task.liesAt x.located
  rw [← heq, (hown y hy).1] at hlies
  exact Artifact.not_liesAt_ownPath (hwords y hy) (hwords x hx) hne hapart _ hlies

/-- An artifact is created where nothing was, unless it fails. -/
theorem Turn.created {g : Generator} {x : Turn g} {status : ArtifactStatus}
    (hnone : x.before.node? x.place = none) (h : x.ending = .ok status) (hstatus : status ≠ .failed) :
    status = .created ∧ x.Writes := by
  have hno : x.before.isThere (g.root ++ x.path) ≠ .ok true := by
    rw [ne_eq, isThere_eq_true_iff]
    rintro ⟨-, hsome⟩
    rw [← Turn.place, hnone] at hsome
    cases hsome
  obtain ⟨task, path, before, asked, result, after, hlocated, htakes⟩ := x
  cases htakes with
  | kept hthere => exact absurd hthere hno
  | @placed there rendering _ hthere =>
    cases there with
    | true => exact absurd hthere hno
    | false => exact ⟨(Except.ok.inj h).symm, .inl rfl⟩
  | unanswered | unrendered | refused =>
    simp only [ending] at h
    split at h
    · exact absurd (Except.ok.inj h).symm hstatus
    · cases h

/-- A turn that ends with its artifact created or replaced has written it. -/
theorem Turn.writes_of_ending {g : Generator} {x : Turn g} {status : ArtifactStatus}
    (h : x.ending = .ok status) (hstatus : status = .created ∨ status = .replaced) : x.Writes := by
  cases hresult : x.result with
  | ok status' =>
    simp only [Turn.ending, hresult, Except.ok.injEq] at h
    rwa [Turn.Writes, hresult, Except.ok.injEq, Except.ok.injEq, h]
  | error e =>
    simp only [Turn.ending, hresult] at h
    split at h
    · obtain rfl := Except.ok.inj h
      simp at hstatus
    · cases h

/-- If no two artifacts come to the same path, none was taken for another one. -/
theorem Leads.apart_of_nodup {g : Generator} {xs : List (Turn g)} {d d' : Disk}
    {asked asked' : List String} (h : Leads g xs d asked d' asked') (hwf : d.WellFormed)
    (hanchor : d.Anchored g.root)
    (hwords : ∀ x ∈ xs, x.task.config.studly = "" ∨ IsWord x.task.config.studly)
    (hbare : Bare g (xs.map fun x ↦ (x.task.config, x.task.artifact)) d)
    (hends : ∀ x ∈ xs, ∃ status, x.ending = .ok status ∧ status ≠ .failed)
    (hnodup : (xs.map (·.path)).Nodup) :
    (xs.map fun x ↦ (x.task.config, x.task.artifact)).Pairwise Apart := by
  rw [List.pairwise_map]
  refine pairwise_of_split fun ys x zs hsplit y hy hya hxa ↦ ?_
  subst hsplit
  have hwords' : ∀ z ∈ ys, z.task.config.studly = "" ∨ IsWord z.task.config.studly := fun z hz ↦
    hwords z (List.mem_append_left _ hz)
  have hpre := h.split.1
  obtain ⟨-, hpaths⟩ := hpre.grows hwf g.spelled_root hwords'
  rw [← Bool.not_eq_true]
  intro hsame
  -- The earlier migration is there and ends as those of the later one.
  obtain ⟨status, hending, hstatus⟩ := hends y (List.mem_append_left _ hy)
  have hthere := hpre.isThere hwf hwords' hy hending hstatus
  have hlies := Task.liesAt y.located
  change y.task.artifact = .migration at hya
  change x.task.artifact = .migration at hxa
  rw [hya] at hlies
  obtain ⟨name, hname, hend⟩ := hlies
  rw [hname] at hthere
  have hend' : Text.endsWith name (Migration.ending x.task.config.table) = true :=
    endsWith_iff.2 ((endsWith_iff.1 hsame).trans (endsWith_iff.1 hend))
  obtain ⟨least, hleast, -, hsome, hleastEnd⟩ :=
    Generator.exists_migration hend' hthere x.task.moment
  have hpath : x.path = Migration.folder.child least := by
    have hlocated := x.located
    rw [Task.pathOn, hxa] at hlocated
    exact Except.ok.inj (hlocated.symm.trans hleast)
  rw [← Migration.resolve_folder_child (Migration.endsWith_php hleastEnd), ← hpath] at hsome
  -- So some turn before has written at the path of the later one.
  have htarget : x.path.IsTarget := by
    refine (Task.liesAt x.located).isTarget (hwords x (by simp)) ?_ hsome
    exact (hpre.grows hwf g.spelled_root hwords').1.wellFormed
  have hother : ∀ z ∈ ys, x.path ≠ z.path := by
    intro z hz heq
    rw [List.map_append, List.map_cons, List.nodup_append] at hnodup
    exact hnodup.2.2 _ (List.mem_map_of_mem hz) _ List.mem_cons_self heq.symm
  obtain ⟨⟨-, -, hnone⟩, -⟩ := hpre.invariant
    (fun d ↦ d.WellFormed ∧ d.Anchored g.root ∧ d.node? (d.resolve (g.root ++ x.path)) = none)
    ⟨hwf, hanchor, hbare _ (List.mem_map_of_mem (List.mem_append_right _ List.mem_cons_self)) _
      (Task.liesAt x.located)⟩
    fun z hz h' ↦ by
      obtain ⟨hwf', hanchor', hnone⟩ := h'
      have hz' := (hpaths z hz).2.2
      obtain ⟨hgrows, -⟩ := z.grows_of_anchored hwf' g.spelled_root hanchor' hz'
      refine ⟨hgrows.wellFormed, hgrows.anchored hanchor', ?_⟩
      rw [← Option.not_isSome_iff_eq_none, z.isSome_iff hwf' hanchor' hz' htarget (hother z hz), hnone]
      simp
  rw [hnone] at hsome
  cases hsome

/-- What turns with different paths have written is there at the end. -/
theorem Leads.file?_eq {g : Generator} {xs : List (Turn g)} {d d' : Disk}
    {asked asked' : List String} (h : Leads g xs d asked d' asked') (hwf : d.WellFormed)
    (hanchor : d.Anchored g.root)
    (hwords : ∀ x ∈ xs, x.task.config.studly = "" ∨ IsWord x.task.config.studly)
    (hnodup : (xs.map (·.path)).Nodup) {x : Turn g} (hx : x ∈ xs) (hwrites : x.Writes) :
    ∃ rendering, (x.task.content g.stubs).resultOn x.before = .ok rendering ∧
      d'.file? (d'.resolve (g.root ++ x.path)) = some (Text.encode rendering.text) := by
  obtain ⟨hbefore, -, hpath⟩ := (h.grows hwf g.spelled_root hwords).2 x hx
  obtain ⟨ys, zs, rfl⟩ := List.append_of_mem hx
  obtain ⟨hpre, hpost⟩ := h.split
  have hanchor' := (hpre.grows hwf g.spelled_root fun y hy ↦
    hwords y (List.mem_append_left _ hy)).1.anchored hanchor
  obtain ⟨hturn, hwritten⟩ := x.grows_of_anchored hbefore g.spelled_root hanchor' hpath
  obtain ⟨rendering, hrendering, hfile⟩ := hwritten hwrites
  obtain ⟨hlater, hpaths⟩ := hpost.grows hturn.wellFormed g.spelled_root fun z hz ↦
    hwords z (List.mem_append_right _ (List.mem_cons_of_mem _ hz))
  have hplace : d'.resolve (g.root ++ x.path) = x.place :=
    resolve_congr (hlater.cwd.trans hturn.cwd) _
  refine ⟨rendering, hrendering, ?_⟩
  rw [hplace, hlater.same, hfile]
  rintro ⟨z, hz, -, heq⟩
  obtain ⟨-, hcwd, hother⟩ := hpaths z hz
  rw [Turn.place, Turn.place, resolve_congr (hcwd.trans hturn.cwd), hpath.resolve_eq,
    hother.resolve_eq, List.append_cancel_left_eq] at heq
  rw [List.map_append, List.map_cons, List.nodup_append] at hnodup
  refine (List.nodup_cons.1 hnodup.2.1).1 ?_
  rw [hpath.eq_of_parts_eq hother heq]
  exact List.mem_map_of_mem hz

/-- Outcomes have the paths of the turns that they report. -/
theorem paths_of_tells {g : Generator} {xs : List (Turn g)} {os : List Outcome}
    (h : List.Forall₂ Turn.Tells xs os) : os.map (·.path) = (xs.map (·.path)).map Path.toString := by
  rw [List.map_map]
  exact map_eq_map_of_forall₂ (h.flip.imp fun o x ⟨_, _, htold⟩ ↦ htold.path)

/-- Entities with different names have no artifact in common. -/
theorem distinguished_enabledArtifacts {cs : List Configuration}
    (hnodup : (cs.map (·.studly)).Nodup) (hapart : (enabledArtifacts cs).Pairwise Apart) :
    Distinguished (enabledArtifacts cs) := by
  refine List.Pairwise.and ?_ hapart
  rw [enabledArtifacts, List.pairwise_flatMap]
  refine ⟨fun c _ ↦ ?_, (List.pairwise_map.1 hnodup).imp fun hne x hx y hy hsame ↦ ?_⟩
  · rw [List.pairwise_map]
    refine (Artifact.nodup_enabled c.toggles).imp ?_
    exact fun {_ _} hne _ ↦ hne
  · obtain ⟨a, -, rfl⟩ := List.mem_map.1 hx
    obtain ⟨a', -, rfl⟩ := List.mem_map.1 hy
    exact absurd hsame hne

/-! ## The whole run -/

namespace Generator

variable {g : Generator} {schema : Schema} {cs : List Configuration} {memory : Memory} {r : Report}
  {s t : Scene} {n : ℕ}

/-- A backup whose directory is not named like a file of code leaves the project bare. -/
theorem BacksUp.bare {d d' : Disk} {todo : List (Configuration × Artifact)}
    (h : g.BacksUp cs r d d') (hwf : d.WellFormed) (hanchor : d.Anchored g.root)
    (hfolder : g.settings.backup = true →
      ∀ part ∈ g.store.folder.parts, Text.endsWith part ".php" = false)
    (hwords : ∀ x ∈ todo, x.1.studly = "" ∨ IsWord x.1.studly) (hbare : Bare g todo d) :
    Bare g todo d' := by
  have hframe := h.frame hwf
  cases h with
  | off => exact hbare
  | @made m session d₀ _ hbackup hreport hopens hmade =>
    intro x hx p hlies
    rw [← Option.not_isSome_iff_eq_none]
    intro hsome
    have ho := hlies.isTarget (hwords x hx) hframe.wellFormed hsome
    have hnone := hbare x hx p hlies
    rw [hframe.resolve_eq, ho.resolve_eq, ← hopens.resolve_eq] at hsome
    have hstood : (d₀.node? (d₀.resolve g.root ++ p.parts)).isSome :=
      (hmade.isSome_iff (hopens.anchored hanchor) p ho).1 hsome
    obtain ⟨n, hn⟩ := Option.isSome_iff_exists.1 hstood
    rw [hopens.resolve_eq] at hn
    rw [ho.resolve_eq] at hnone
    cases n with
    | file content =>
      rw [← file?_eq_some_iff, hopens.same _ id, file?_eq_some_iff, hnone] at hn
      cases hn
    | dir =>
      rcases hopens.comes _ hn with hdir | ⟨name, hname, hlast⟩
      · rw [hnone] at hdir
        cases hdir
      · -- The last name of the path ends in `.php`, and no name on the way to the session does.
        obtain ⟨dirs, file, rfl, -, -, hphp, -⟩ := ho
        rw [← List.append_assoc, List.getLast?_concat] at hlast
        obtain rfl := Option.some.inj hlast
        obtain ⟨sessionName, rfl, hsession⟩ := hmade.new.name
        rcases List.mem_append.1 hname with hpart | hpart
        · rw [hfolder hbackup _ hpart] at hphp
          cases hphp
        · obtain rfl := List.mem_singleton.1 hpart
          exact hsession.char_not_mem (c := '.') (by decide)
            ((endsWith_iff.1 hphp).subset (by decide))

/-- Every enabled artifact has a file of its own: `xs` are the turns of the run. -/
structure Fills (g : Generator) (schema : Schema) (cs : List Configuration) (xs : List (Turn g))
    (r : Report) (t : Scene) : Prop where
  order : xs.map (fun x ↦ (x.task.config, x.task.artifact)) = enabledArtifacts cs
  fits : ∀ x ∈ xs, x.task.Fits g schema
  /-- Each is reported as created. -/
  outcomes : List.Forall₂ (fun x o ↦ o.entity = x.task.config.studly ∧
    o.artifact = x.task.artifact.name ∧ o.path = x.path.toString ∧ o.status = .created) xs r.outcomes
  /-- No two have a path in common. -/
  nodup : (r.outcomes.map (·.path)).Nodup
  /-- At the end each file holds what was rendered for its entity. -/
  files : ∀ x ∈ xs, ∃ rendering, (x.task.content g.stubs).resultOn x.before = .ok rendering ∧
    t.disk.file? (t.disk.resolve (g.root ++ x.path)) = some (Text.encode rendering.text)

/-- In a bare project every artifact gets a file of its own exactly if no migrations end as those of
an entity that comes later. -/
theorem Reports.fills_iff (h : Reports g schema cs s r t) (hwf : s.disk.WellFormed)
    (hbuilt : Configuration.Built schema cs memory) (hroute : g.routes.root = g.root)
    (hanchor : s.disk.Anchored g.root)
    (hfolder : g.settings.backup = true →
      ∀ part ∈ g.store.folder.parts, Text.endsWith part ".php" = false)
    (hbare : Bare g (enabledArtifacts cs) s.disk) (hready : r.backupErrors = [])
    (hnofail : ∀ o ∈ r.outcomes, o.status ≠ .failed) :
    (∃ xs, Fills g schema cs xs r t) ↔ (enabledArtifacts cs).Pairwise Apart := by
  cases h with
  | unready hbackup herrors => exact absurd hready herrors
  | @complete d₁ d₂ xs os results hbackup hplans hleads htells hroutes hresults hvalidation _ hheld
      houtcomes =>
    subst houtcomes
    have hframe := hbackup.frame hwf
    have hanchor₁ := hframe.anchored hanchor
    have hwords := hbuilt.words_of_turns hplans.isPrefix
    have hbare₁ := hbackup.bare hwf hanchor hfolder
      (fun x hx ↦ hbuilt.words _ (mem_of_mem_enabledArtifacts hx).1) hbare
    rw [← hplans.enabled_eq] at hbare₁
    have hends : ∀ x ∈ xs, ∃ status, x.ending = .ok status ∧ status ≠ .failed := fun x hx ↦ by
      obtain ⟨o, ho, status, hending, htold⟩ := exists_of_forall₂_of_mem_right htells.flip hx
      exact ⟨status, hending, htold.status ▸ hnofail o ho⟩
    have hpaths := paths_of_tells htells
    constructor
    · rintro ⟨xs', hfills⟩
      rw [← hplans.enabled_eq]
      have hnodup := hfills.nodup
      rw [hpaths] at hnodup
      exact hleads.apart_of_nodup hframe.wellFormed hanchor₁ hwords hbare₁ hends hnodup.of_map
    · intro hapart
      have hdistinguished := distinguished_enabledArtifacts hbuilt.nodup hapart
      rw [← hplans.enabled_eq] at hdistinguished
      have hown := hleads.bare hframe.wellFormed hanchor₁ hwords hbare₁ hdistinguished
      have hnodup := hleads.nodup_path hframe.wellFormed hanchor₁ hwords hbare₁ hdistinguished
      have hcreated : ∀ x ∈ xs, x.ending = .ok .created ∧ x.Writes := fun x hx ↦ by
        obtain ⟨status, hending, hstatus⟩ := hends x hx
        obtain ⟨rfl, hwrites⟩ := Turn.created (hown x hx).2 hending hstatus
        exact ⟨hending, hwrites⟩
      obtain ⟨hturns, htargets⟩ := hleads.grows hframe.wellFormed g.spelled_root hwords
      refine ⟨xs, hplans.enabled_eq, fun x hx ↦ hplans.fits _ (List.mem_map_of_mem hx), ?_, ?_,
        fun x hx ↦ ?_⟩
      · refine ((List.forall₂_and_left _ _).2 ⟨hcreated, htells⟩).imp ?_
        rintro x o ⟨⟨hending, -⟩, status, hending', htold⟩
        obtain rfl := Except.ok.inj (hending.symm.trans hending')
        exact ⟨htold.entity, htold.artifact, htold.path, htold.status⟩
      · rw [hpaths]
        refine hnodup.map_on fun p hp q hq heq ↦ ?_
        obtain ⟨x, hx, rfl⟩ := List.mem_map.1 hp
        obtain ⟨y, hy, rfl⟩ := List.mem_map.1 hq
        rw [← (htargets x hx).2.2.ofString_toString, heq, (htargets y hy).2.2.ofString_toString]
      · obtain ⟨rendering, hrendering, hfile⟩ := hleads.file?_eq hframe.wellFormed hanchor₁ hwords
          hnodup hx (hcreated x hx).2
        refine ⟨rendering, hrendering, ?_⟩
        rw [hroutes.resolve_eq, hroutes.same _ ?_, hfile]
        exact ((Task.liesAt x.located).place_ne hroute (hwords x hx) (htargets x hx).2.2 d₂).symm

/-- A run over a bare project gives every enabled artifact a file of its own, which is created and
holds what was rendered for its entity, exactly if no migrations end as those of an entity that comes
later. That is so if the backup succeeds and no artifact fails; the run always ends in a report. -/
theorem ends_generate_fills {raw : Value} (haccepted : schema.Accepted raw)
    (hbuilt : (Configuration.buildAll schema).run.run Memory.empty = (.ok cs, memory))
    (hwf : s.disk.WellFormed) (hroute : g.routes.root = g.root)
    (hwork : g.Workable schema.length s.disk)
    (hfolder : g.settings.backup = true →
      ∀ part ∈ g.store.folder.parts, Text.endsWith part ".php" = false)
    (hbare : Bare g (enabledArtifacts cs) s.disk) :
    Ends (g.generate raw) s
      (fun r t ↦ r.backupErrors = [] → (∀ o ∈ r.outcomes, o.status ≠ .failed) →
        ((∃ xs, Fills g schema cs xs r t) ↔ (enabledArtifacts cs).Pairwise Apart))
      fun _ _ ↦ False :=
  (ends_generate_reports haccepted hbuilt hwf hroute hwork).mono
    (fun _ _ ⟨log, hreports⟩ ↦ hreports.fills_iff (s := { s with log }) hwf
      (Configuration.built haccepted hbuilt) hroute hwork.anchored hfolder hbare)
    fun _ _ ↦ id

/-- If the artifacts have paths of their own, a file that the report says was written holds what was
rendered for its artifact. -/
theorem Reports.file?_eq (h : Reports g schema cs s r t) (hwf : s.disk.WellFormed)
    (hbuilt : Configuration.Built schema cs memory) (hroute : g.routes.root = g.root)
    (hanchor : s.disk.Anchored g.root) (hready : r.backupErrors = [])
    (hnodup : (r.outcomes.map (·.path)).Nodup) {o : Outcome} (ho : o ∈ r.outcomes)
    (hwritten : o.status = .created ∨ o.status = .replaced) :
    ∃ x : Turn g, x.Tells o ∧ ∃ rendering, (x.task.content g.stubs).resultOn x.before = .ok rendering ∧
      t.disk.file? (t.disk.resolve (g.root ++ Path.ofString o.path)) =
        some (Text.encode rendering.text) := by
  cases h with
  | unready hbackup herrors => exact absurd hready herrors
  | @complete d₁ d₂ xs os results hbackup hplans hleads htells hroutes hresults hvalidation _ hheld
      houtcomes =>
    subst houtcomes
    have hframe := hbackup.frame hwf
    have hwords := hbuilt.words_of_turns hplans.isPrefix
    obtain ⟨x, hx, hreported⟩ := exists_of_forall₂_of_mem_right htells ho
    obtain ⟨status, hending, htold⟩ := id hreported
    have hpath := ((hleads.grows hframe.wellFormed g.spelled_root hwords).2 x hx).2.2
    rw [paths_of_tells htells] at hnodup
    obtain ⟨rendering, hrendering, hfile⟩ := hleads.file?_eq hframe.wellFormed
      (hframe.anchored hanchor) hwords hnodup.of_map hx
      (Turn.writes_of_ending hending (htold.status ▸ hwritten))
    refine ⟨x, hreported, rendering, hrendering, ?_⟩
    rw [htold.path, hpath.ofString_toString, hroutes.resolve_eq, hroutes.same _ ?_, hfile]
    exact ((Task.liesAt x.located).place_ne hroute (hwords x hx) hpath d₂).symm

/-- If the artifacts have paths of their own, each file that a run reports as created or replaced
holds what was rendered for its artifact. -/
theorem ends_generate_rendered {raw : Value} (haccepted : schema.Accepted raw)
    (hwf : s.disk.WellFormed) (hroute : g.routes.root = g.root)
    (hanchor : s.disk.Anchored g.root) :
    Ends (g.generate raw) s
      (fun r t ↦ r.backupErrors = [] → (r.outcomes.map (·.path)).Nodup → ∀ o ∈ r.outcomes,
        o.status = .created ∨ o.status = .replaced → ∃ x : Turn g, x.Tells o ∧ ∃ rendering,
          (x.task.content g.stubs).resultOn x.before = .ok rendering ∧
            t.disk.file? (t.disk.resolve (g.root ++ Path.ofString o.path)) =
              some (Text.encode rendering.text))
      fun _ _ ↦ True := by
  refine ends_generate haccepted (fun cs memory r log hrun hfresh _ ↦ ?_) fun _ _ _ ↦ trivial
  have hbuilt := Configuration.built haccepted hrun
  refine (ends_process (s := { s with log }) hwf (hroute ▸ g.spelled_root) hbuilt hfresh).mono ?_
    fun _ _ _ ↦ trivial
  exact fun r t hreports hready hnodup o ho hwritten ↦
    hreports.file?_eq hwf hbuilt hroute hanchor hready hnodup ho hwritten

end Generator

/-- On an empty disk the one artifact of the small project gets its file. -/
theorem SmallProject.generate_fills : ∃ cs,
    (enabledArtifacts cs).map (fun x ↦ (x.1.studly, x.2)) = [("Post", .model)] ∧
      Ends ((Generator.ofSettings (settings .skip) none moment).generate (.map entries))
        ⟨⟨[], []⟩, [], []⟩
        (fun r t ↦ r.backupErrors = [] → (∀ o ∈ r.outcomes, o.status ≠ .failed) →
          ∃ xs, (Generator.ofSettings (settings .skip) none moment).Fills schema cs xs r t)
        fun _ _ ↦ False := by
  obtain ⟨cs, memory, hbuilt, henabled, -⟩ := exists_built
  obtain ⟨⟨c, a⟩, hall, heq⟩ := List.map_eq_singleton_iff.1 henabled
  obtain ⟨hstudly, rfl⟩ := Prod.mk.inj heq
  have hwork : (Generator.ofSettings (settings .skip) none moment).Workable schema.length
      ⟨[], []⟩ := by
    refine ⟨anchoredFrom_of_plain _ _ (by decide), by decide, by decide, by decide, ?_, by decide,
      ?_, ?_⟩
    · intro hbackup
      cases hbackup
    · intro folder hfolder
      cases hfolder
    · intro content hcontent
      cases hcontent
  have hbare : Bare (.ofSettings (settings .skip) none moment) (enabledArtifacts cs) ⟨[], []⟩ := by
    rw [hall]
    refine List.forall_mem_singleton.2 fun p hlies ↦ ?_
    have hword : c.studly = "" ∨ IsWord c.studly :=
      (Configuration.built accepted hbuilt).words c (mem_of_mem_enabledArtifacts (hall ▸
        List.mem_singleton_self (c, Artifact.model))).1
    change Artifact.model.LiesAt c p at hlies
    rw [Artifact.LiesAt, Artifact.fixedPath?_eq hword (by decide), hstudly] at hlies
    obtain rfl := hlies
    rfl
  have hapart : (enabledArtifacts cs).Pairwise Apart := by
    rw [hall]
    exact List.pairwise_singleton _ _
  refine ⟨cs, henabled, (Generator.ends_generate_fills accepted hbuilt (by decide) rfl hwork
    (fun hbackup ↦ by cases hbackup) hbare).mono ?_ fun _ _ ↦ id⟩
  intro r t hiff hready hnofail
  exact (hiff hready hnofail).2 hapart

end Scaffold
