import Scaffold.Proofs.Backup.Recovery
import Scaffold.Proofs.Generation.Distinct
import Scaffold.Proofs.Stub.Template

/-!
# Undoing a run

Every file that a run over a project writes is one that a rollback to its backup may change: it is
the file of an entry, or a migration that fits the pattern of one. So a rollback takes the project
back to what it was before the run, with no more than empty directories left behind.
-/

namespace Scaffold

open Disk DiskOp BackupStore

variable {g : Generator} {schema : Schema} {cs : List Configuration} {r : Report} {s t : Scene}
  {session : Path} {m : BackupManifest} {d₀ d₁ d d' : Disk} {l : Location} {o : Path}

/-! ## What a run covers -/

/-- The location is one above a target of the project. -/
def AboveTarget (root : Path) (d : Disk) (l : Location) : Prop :=
  ∃ o : Path, o.IsTarget ∧ Above (d.resolve root ++ o.parts) l

/-- No target lies above a target. -/
theorem Path.IsTarget.not_aboveTarget (ho : o.IsTarget) {root : Path} :
    ¬AboveTarget root d (d.resolve root ++ o.parts) := by
  rintro ⟨o', ho', hpre, hne⟩
  rw [List.prefix_append_right_inj] at hpre
  exact ho'.ne_of_prefix ho hpre (fun heq ↦ hne (by rw [heq])) rfl

/-- The disk has only changed where a rollback may change it: `d₀` is the disk on which the session
was opened. -/
abbrev Covered (b : BackupStore) (m : BackupManifest) (d₀ : Disk) : Disk → Disk → Prop :=
  Grows (AboveTarget b.root d₀) fun l ↦ ∃ e ∈ m.tracked, b.Touches d₀ e l

/-- What came at a target is covered by an entry. -/
theorem Covered.exists_touches {b : BackupStore} (h : Covered b m d₀ d d') (ho : o.IsTarget)
    (hnone : d.node? (d₀.resolve b.root ++ o.parts) = none)
    (hsome : (d'.node? (d₀.resolve b.root ++ o.parts)).isSome) :
    ∃ e ∈ m.tracked, b.Touches d₀ e (d₀.resolve b.root ++ o.parts) := by
  by_contra hno
  rw [h.isSome_iff ho.not_aboveTarget hno, hnone] at hsome
  cases hsome

section Turns

variable (hmade : Made g.store cs session m d₀ d₁) (hanchor : d₀.Anchored g.root)
  (hcomplete : ∀ e ∈ m.tracked, e.existed = e.backedUp)

include hmade hanchor hcomplete

/-- The artifact of a turn is covered by an entry: by its own, or, if it is a migration that came in
the run, by that of the entity for which it came. -/
theorem Turn.exists_touches {x : Turn g} (hc : x.task.config ∈ cs)
    (hword : x.task.config.studly = "" ∨ IsWord x.task.config.studly)
    (hcovered : Covered g.store m d₀ d₁ x.before) :
    ∃ e ∈ m.tracked, g.store.Touches d₀ e x.place := by
  have hcwd : x.before.cwd = d₀.cwd := hcovered.cwd.trans hmade.grows.cwd
  have hanchor' : x.before.Anchored g.root := hcovered.anchored (hmade.grows.anchored hanchor)
  have hpath := Task.isTarget hcovered.wellFormed hword x.located
  have hplace : x.place = d₀.resolve (g.root ++ x.path) := resolve_congr hcwd _
  obtain ⟨e, he, hcovers⟩ := hmade.covers hanchor _ hc x.task.artifact
  have hlocated := x.located
  rw [Task.pathOn] at hlocated
  cases hcovers with
  | @fixed o ho horiginal =>
    rw [ho] at hlocated
    obtain rfl : o = x.path := Except.ok.inj hlocated
    refine ⟨e, he, .inl ⟨_, horiginal, hcomplete e he, ?_⟩⟩
    rw [hplace, hpath.ofString_toString]
    rfl
  | pattern ha hpattern =>
    rw [ha] at hlocated
    obtain ⟨name, hname, hend, -⟩ := Migration.exists_child_of_path hlocated
    have hphp := Migration.endsWith_php hend
    refine ⟨e, he, .inr ⟨_, name, hpattern, hpath.spelled _ (by simp [hname, Path.child]), hend, ?_⟩⟩
    rw [hplace, hname]
    exact Migration.resolve_folder_child hphp _ _
  | @oldest name ha horiginal hend hsome hleast =>
    rw [ha] at hlocated
    obtain ⟨name', hname', hend', hfound⟩ := Migration.exists_child_of_path hlocated
    have hplace' : x.place = d₀.resolve (g.root ++ Migration.folder) ++ [name'] := by
      rw [hplace, hname']
      exact Migration.resolve_folder_child (Migration.endsWith_php hend') _ _
    have hfolder : x.before.resolve (g.root ++ Migration.folder) =
        d₀.resolve (g.root ++ Migration.folder) := resolve_congr hcwd _
    have hthere : (x.before.node? (x.before.resolve (g.root ++ Migration.folder) ++ [name])).isSome := by
      rw [hfolder]
      exact hcovered.isSome (hmade.grows.isSome hsome)
    rcases hfound with ⟨-, hnone⟩ | ⟨hsome', rest, hexisting⟩
    · obtain ⟨-, hmem, -⟩ := Migration.existing_eq_ok hcovered.wellFormed hanchor' hnone
      simpa using (hmem name).2 ⟨hthere, hend⟩
    · obtain ⟨-, hmem, hsorted⟩ := Migration.existing_eq_ok hcovered.wellFormed hanchor' hexisting
      by_cases hold : (d₀.node? (d₀.resolve (g.root ++ Migration.folder) ++ [name'])).isSome
      · -- It is the migration that was the oldest when the backup was made.
        have hle : name' ≤ name := by
          rcases List.mem_cons.1 ((hmem name).2 ⟨hthere, hend⟩) with heq | hrest
          · rw [heq]
          · exact (List.pairwise_cons.1 hsorted).1 name hrest
        obtain rfl := le_antisymm hle (hleast name' hend' hold)
        refine ⟨e, he, .inl ⟨_, horiginal, hcomplete e he, ?_⟩⟩
        rw [hplace, ← hname', hpath.ofString_toString]
        rfl
      · -- It came in the run.
        rw [hfolder, ← hplace'] at hsome'
        rw [← hplace'] at hold
        rw [hplace, hpath.resolve_eq] at hsome' hold ⊢
        refine hcovered.exists_touches hpath ?_ hsome'
        rw [← Option.not_isSome_iff_eq_none]
        exact (hmade.isSome_iff hanchor _ hpath).not.2 hold

/-- All turns of a run are covered. -/
theorem Leads.covered {xs : List (Turn g)} {asked asked' : List String}
    (hleads : Leads g xs d₁ asked d asked') (hmem : ∀ x ∈ xs, x.task.config ∈ cs)
    (hwords : ∀ x ∈ xs, x.task.config.studly = "" ∨ IsWord x.task.config.studly) :
    Covered g.store m d₀ d₁ d := by
  refine (hleads.invariant (Covered g.store m d₀ d₁) (.refl hmade.grows.wellFormed)
    fun x hx hcovered ↦ ?_).1
  have hcwd : x.before.cwd = d₀.cwd := hcovered.cwd.trans hmade.grows.cwd
  have hanchor' : x.before.Anchored g.root := hcovered.anchored (hmade.grows.anchored hanchor)
  have hpath := Task.isTarget hcovered.wellFormed (hwords x hx) x.located
  obtain ⟨hgrows, -⟩ := x.grows_of_anchored hcovered.wellFormed g.spelled_root hanchor' hpath
  have htouches := x.exists_touches hmade hanchor hcomplete (hmem x hx) (hwords x hx) hcovered
  refine hcovered.trans (hgrows.mono (fun l hl ↦ ⟨x.path, hpath, ?_⟩) fun l hl ↦ hl.2 ▸ htouches)
  rwa [Turn.place, resolve_congr hcwd, hpath.resolve_eq] at hl

/-- So is the route file. -/
theorem covered_routes (hroutes : g.routes.root = g.root) (hcovered : Covered g.store m d₀ d₁ d)
    (hgrows : Grows (g.routes.Leading d) (· = g.routes.place d) d d') :
    Covered g.store m d₀ d₁ d' := by
  have hpath : (Path.ofString (RouteFile.relativePath g.routes.api)).IsTarget :=
    RouteFile.isTarget_relativePath _
  have hplace : g.routes.place d =
      d₀.resolve (g.root ++ Path.ofString (RouteFile.relativePath g.routes.api)) := by
    rw [RouteFile.place, RouteFile.path, hroutes]
    exact resolve_congr (hcovered.cwd.trans hmade.grows.cwd) _
  refine hcovered.trans (hgrows.mono (fun l hl ↦ ⟨_, hpath, ?_⟩) fun l hl ↦
    ⟨_, m.sharedEntry_mem_tracked, .inl ⟨m.sharedPath, rfl, hcomplete _ m.sharedEntry_mem_tracked, ?_⟩⟩)
  · have habove := hl (hroutes ▸ hcovered.anchored (hmade.grows.anchored hanchor))
    rwa [hplace, hpath.resolve_eq] at habove
  · rw [hl, hplace, hmade.sharedPath]
    rfl

end Turns

/-! ## The session of a project -/

/-- A project that is there does not lie in a new session. -/
theorem BackupStore.New.not_prefix_of_isDir {b : BackupStore} (h : New b session d₀)
    (hopens : Changes (Named session.parts) nowhere d d₀) (hfree : d.node? (d.resolve session) = none)
    (hroot : d.isDir b.root = .ok true) : ¬d₀.resolve session <+: d₀.resolve b.root := by
  have hdir := (isDir_eq_true_iff.1 hroot).2
  rw [hopens.resolve_eq, hopens.resolve_eq]
  intro hpre
  by_cases heq : d.resolve b.root = d.resolve session
  · rw [heq, hfree] at hdir
    cases hdir
  · have := h.isEmpty (d.resolve b.root) (by rwa [hopens.resolve_eq]) (by rwa [hopens.resolve_eq])
    rw [hopens.keeps _ hdir] at this
    cases this

/-! ## Undoing -/

/-- A run with a complete backup over a project that is there can be rolled back, and this takes the
project back to what it was. -/
theorem Covered.ends_rollback {b : BackupStore} (h : Covered b m d₀ d₁ t.disk)
    (hmade : Made b cs session m d₀ d₁) (hspelled : b.root.Spelled)
    (hopens : Changes (Named session.parts) nowhere d d₀) (hfree : d.node? (d.resolve session) = none)
    (hroot : d.isDir b.root = .ok true) :
    Ends (b.rollback m.timestamp) t
      (fun r u ↦ (r.isSuccess = true ↔ ∀ e ∈ m.tracked, b.Answers t.disk e) ∧
        (r.isSuccess = true → ∀ l, ¬d.resolve (b.folder.child m.timestamp) <+: l →
          u.disk.file? l = d.file? l))
      fun _ _ ↦ ¬∀ e ∈ m.tracked, b.Answers t.disk e := by
  have hanchor : d₀.Anchored b.root := hopens.anchored (anchored_of_isDir hroot)
  have hknows := fun e he ↦ (hmade.entered e he).knows hanchor
  have hapart := hmade.new.not_prefix_of_isDir hopens hfree hroot
  have hsince : Since b m d₁ t.disk := by
    refine hmade.since hanchor h.toChanges (fun l hl ↦ ⟨?_, ?_⟩) fun e he l hl ↦ ?_
    · rintro ⟨o, ho, hpre, -⟩
      exact hapart (hmade.new.prefix_root ho (hl.trans hpre))
    · rintro ⟨e, he, htouch⟩
      obtain ⟨o, ho, rfl⟩ := (hknows e he).exists_target htouch
      exact hapart (hmade.new.prefix_root ho hl)
    · obtain ⟨o, ho, rfl⟩ := (hknows e he).exists_target hl
      exact ho.not_aboveTarget
  refine (hmade.ends_rollback hanchor hspelled (hmade.later hanchor hsince)).mono ?_
    fun _ _ hbad ↦ hbad.2
  rintro r u ⟨hsuccess, ⟨reach, hrestores, hreach⟩, hrestored⟩
  refine ⟨hsuccess, fun hok l hl ↦ ?_⟩
  rw [← hmade.session_eq.1, ← hopens.resolve_eq] at hl
  by_cases htouched : ∃ e ∈ m.tracked, b.Touches d₀ e l
  · obtain ⟨e, he, htouch⟩ := htouched
    rw [hrestored hok e he l htouch, hopens.same l id]
  · rw [hrestores.changes.same l fun hl ↦ htouched (hreach l hl), h.same l htouched,
      hmade.grows.same l fun hstored ↦ hl hstored.1, hopens.same l id]

namespace Generator

variable {raw : Value} {settings : Settings} {answers : Option Answers} {moment : Moment}

/-- What a run with a backup did to a project that was there is undone by a rollback to the backup,
if that copied all there was. The rollback succeeds exactly if the disk answers what it asks. -/
theorem ends_generate_rollback (haccepted : schema.Accepted raw) (hbackup : settings.backup = true)
    (hwf : s.disk.WellFormed) (hroot : s.disk.isDir settings.root = .ok true) :
    Ends ((Generator.ofSettings settings answers moment).generate raw) s
      (fun r t ↦ r.backupErrors = [] → ∃ m, r.backup = some m ∧
        ((∀ e ∈ m.tracked, e.existed = e.backedUp) →
          Ends ((BackupStore.ofSettings settings).rollback m.timestamp) t
            (fun r' u ↦
              (r'.isSuccess = true ↔
                ∀ e ∈ m.tracked, (BackupStore.ofSettings settings).Answers t.disk e) ∧
              (r'.isSuccess = true → ∀ l,
                ¬s.disk.resolve (settings.backupRoot.child m.timestamp) <+: l →
                  u.disk.file? l = s.disk.file? l))
            fun _ _ ↦ ¬∀ e ∈ m.tracked, (BackupStore.ofSettings settings).Answers t.disk e))
      fun _ _ ↦ True := by
  refine ends_generate haccepted (fun cs memory r log hrun hfresh _ ↦ ?_) fun _ _ _ ↦ trivial
  have hbuilt := Configuration.built haccepted hrun
  refine (ends_process (s := { s with log }) hwf (BackupStore.spelled_root settings) hbuilt
    hfresh).mono ?_ fun _ _ _ ↦ trivial
  intro r' t hreports hready
  cases hreports with
  | unready _ herrors => exact absurd hready herrors
  | @complete d₁ d₂ xs os results hbacksUp hplans hleads htells hroutes =>
    cases hbacksUp with
    | off hoff =>
      rw [show (Generator.ofSettings settings answers moment).settings.backup = _ from hbackup] at hoff
      cases hoff
    | @made m session d₀ _ _ hreport hopens hmade hfree =>
      refine ⟨m, hreport, fun hcomplete ↦ ?_⟩
      have hanchor := hopens.anchored (anchored_of_isDir hroot)
      have hcovered := hleads.covered hmade hanchor hcomplete
        (fun x hx ↦ (mem_of_mem_enabledArtifacts
          (hplans.enabled_eq ▸ List.mem_map_of_mem hx)).1) (hbuilt.words_of_turns hplans.isPrefix)
      exact (covered_routes hmade hanchor hcomplete rfl hcovered hroutes).ends_rollback hmade
        (BackupStore.spelled_root settings) hopens hfree hroot

end Generator

/-! ## A small project -/

theorem Stub.lines_cons (text : String) (texts : List String) :
    lines (text :: texts) = text ++ "\n" ++ lines texts := by
  rw [lines, lines, List.map_cons, String.join_cons]

/-- The filled stub of a model is more than its first line. -/
theorem Stub.render_modelStub_ne (values : List (String × String)) :
    render modelStub values ≠ "<?php" := by
  obtain ⟨texts, hstub⟩ : ∃ texts, modelStub = lines ("<?php" :: texts) := ⟨_, rfl⟩
  have hplain : '\x7b' ∉ ("<?php" ++ "\n").toList := by decide
  rw [hstub, lines_cons, render_append hplain]
  intro heq
  have hlength := congrArg (fun s : String ↦ s.toList.length) heq
  simp at hlength

/-- Without stubs of the project's own, a rendered model is more than that line, too. -/
theorem Turn.text_ne (x : Turn g) (hfolder : g.stubs.folder = none)
    (hdefaults : g.stubs.useDefaults = true) (hmodel : x.task.artifact.name = "model")
    {rendering : Rendering} (h : (x.task.content g.stubs).resultOn x.before = .ok rendering) :
    rendering.text ≠ "<?php" := by
  have heq : ∀ a : Artifact, a.name = "model" → a = .model := by
    intro a
    cases a <;> decide
  rw [Task.content, heq _ hmodel, Artifact.resultOn_render_model hfolder hdefaults] at h
  obtain rfl := Except.ok.inj h
  exact Stub.render_modelStub_ne _

/-- The model that a run replaced is as it was before after a rollback. -/
theorem SmallProject.generate_rollback : ∃ r t m,
    ((Generator.ofSettings { settings .force with backup := true } none moment).generate
      (.map entries)).run.run scene = (.ok r, t) ∧ r.backup = some m ∧
    t.disk.file? ["app", "Models", "Post.php"] ≠ some (Text.encode "<?php") ∧
    Ends (backups.rollback m.timestamp) t
      (fun r' u ↦ r'.isSuccess = true ∧
        u.disk.file? ["app", "Models", "Post.php"] = some (Text.encode "<?php"))
      fun _ _ ↦ False := by
  obtain ⟨r, t, hrun, htest⟩ := exists_run_of_passes
    ((Generator.ofSettings { settings .force with backup := true } none moment).generate
      (.map entries)) scene
    (fun r t ↦ r.backupErrors.isEmpty &&
      r.backup.all (fun m ↦ answersAll m t.disk && m.timestamp == "2024-01-01_00-00-00") &&
        decide t.disk.WellFormed && t.disk.cwd == [] &&
        r.outcomes.map (fun o ↦ (o.artifact, o.path, o.status)) ==
          [("model", "app/Models/Post.php", .replaced)])
    (by decide +kernel)
  simp only [Bool.and_eq_true, List.isEmpty_iff, decide_eq_true_eq, beq_iff_eq] at htest
  obtain ⟨⟨⟨⟨hready, hall⟩, hwf⟩, hcwd⟩, houtcomes⟩ := htest
  obtain ⟨m, hm, hrollback⟩ := (ends_of_run_ok hrun).1 (Generator.ends_generate_rollback accepted rfl
    (by decide) (by decide)) hready
  rw [hm, Option.all_some, Bool.and_eq_true, beq_iff_eq] at hall
  obtain ⟨hall, hstamp⟩ := hall
  have hanswers := answers_of_answersAll hall hwf
  refine ⟨r, t, m, hrun, hm, ?_,
    (hrollback (complete_of_answersAll hall)).mono ?_ fun _ _ hbad ↦ hbad hanswers⟩
  · have hplace : t.disk.resolve (backups.root ++ Path.ofString "app/Models/Post.php") =
        ["app", "Models", "Post.php"] := resolve_congr (d := disk) hcwd _
    obtain ⟨o, houtcome, ho⟩ := List.map_eq_singleton_iff.1 houtcomes
    simp only [Prod.mk.injEq] at ho
    obtain ⟨hartifact, hpath, hstatus⟩ := ho
    obtain ⟨x, ⟨status, -, htold⟩, rendering, hrendering, hfile⟩ := (ends_of_run_ok hrun).1
      (Generator.ends_generate_rendered accepted (by decide) rfl
        (anchoredFrom_of_plain _ _ (by decide))) hready (by simp [houtcome]) o (by simp [houtcome])
        (.inr hstatus)
    rw [← hplace, ← hpath]
    intro heq
    exact x.text_ne rfl rfl (htold.artifact.symm.trans hartifact) hrendering
      (Text.encode_inj.1 (Option.some.inj (hfile.symm.trans heq)))
  rintro r' u ⟨hsuccess, hback⟩
  refine ⟨hsuccess.2 hanswers, hback (hsuccess.2 hanswers) _ ?_⟩
  rw [hstamp]
  decide

end Scaffold
