import Scaffold.Proofs.Backup.Reporting
import Scaffold.Proofs.Generation.Stopping

/-!
# Backup errors as warnings

A run warns of every error in the manifest of its backup, and no later step takes a warning back. So
what a backup could not copy is found in the report of the run, except for the route file.
-/

namespace Scaffold

namespace Report

variable {r r' r'' : Report}

/-- Each error of the backup is among the warnings. -/
def Warns (r : Report) : Prop :=
  ∀ m, r.backup = some m → ∀ line ∈ m.errors, s!"Backup: {line}" ∈ r.generationWarnings

/-- The report is about the same backup, and no warning has gone. -/
structure Extends (r r' : Report) : Prop where
  backup : r'.backup = r.backup
  warnings : r.generationWarnings ⊆ r'.generationWarnings

theorem Extends.refl (r : Report) : r.Extends r := ⟨rfl, List.Subset.refl _⟩

theorem Extends.trans (h : r.Extends r') (h' : r'.Extends r'') : r.Extends r'' :=
  ⟨h'.backup.trans h.backup, List.Subset.trans h.warnings h'.warnings⟩

theorem extends_addWarnings (r : Report) (messages : List String) :
    r.Extends (r.addWarnings messages) :=
  ⟨rfl, List.subset_append_left _ _⟩

theorem Extends.warns (h : r.Extends r') (hwarns : r.Warns) : r'.Warns := by
  intro m hm line hline
  rw [h.backup] at hm
  exact h.warnings (hwarns m hm line hline)

theorem warns_empty (basePath schemaFile : String) : (empty basePath schemaFile).Warns := by
  intro m hm
  cases hm

end Report

namespace Generator

variable {g : Generator} {raw : Value} {schema : Schema} {c : Configuration}
  {cs : List Configuration} {related : List String} {moment : Moment} {a : Artifact}
  {memory : Memory} {r : Report} {m : WriteManifest} {s : Scene}

/-! ## Before anything is written -/

theorem ends_validate_extends :
    Ends (validate raw r) s (fun x _ ↦ r.Extends x.1) fun _ _ ↦ True := by
  unfold validate
  rw [ends_bind, Run.ends_lift]
  refine ⟨fun report _ ↦ ?_, fun _ _ ↦ trivial⟩
  simp only [ends_bind, Run.ends_sayAll]
  split
  · simp only [ends_bind, Run.ends_sayAll, ends_pure]
    exact ⟨rfl, List.Subset.refl _⟩
  · simp only [ends_bind, Run.ends_sayAll]
    split
    · rw [ends_bind, Run.ends_lift]
      exact ⟨fun _ _ ↦ (ends_pure _).2 ⟨rfl, List.Subset.refl _⟩, fun _ _ ↦ trivial⟩
    · exact (ends_pure _).2 ⟨rfl, List.Subset.refl _⟩

theorem ends_configure_extends :
    Ends (configure schema r) s (fun x _ ↦ r.Extends x.1) fun _ _ ↦ True := by
  unfold configure
  cases (Configuration.buildAll schema).run.run Memory.empty with | mk built memory =>
  have hadded := r.extends_addWarnings
    (memory.warnings.filter fun w ↦ !r.validationWarnings.contains w)
  cases built with
  | ok cs =>
    simp only [ends_bind, Run.ends_sayAll, ends_pure]
    exact ⟨hadded.backup, hadded.warnings⟩
  | error e =>
    simp only [ends_bind, Run.ends_sayAll]
    split
    · exact (ends_throw _).2 trivial
    · simp only [ends_bind, Run.ends_say, ends_pure]
      exact ⟨hadded.backup, hadded.warnings⟩

/-- A backup that is made comes with a warning for each of its errors. -/
theorem ends_backUp_warns (h : r.Warns) :
    Ends (g.backUp cs r) s (fun x _ ↦ x.1.Warns) fun _ _ ↦ True := by
  unfold backUp
  rw [ends_bind, Run.ends_attempt]
  refine (ends_any _ _).mono (fun manifest t _ ↦ ?_) fun e t _ ↦ ⟨fun _ ↦ ?_, fun _ ↦ trivial⟩
  · rw [ends_pure]
    intro m hm line hline
    obtain rfl := Option.some.inj hm
    exact List.mem_append_right _ (List.mem_map_of_mem hline)
  · simp only [ends_bind, Run.ends_say, ends_pure]
    exact h

/-! ## After the backup -/

theorem ends_generateArtifact_extends :
    Ends (g.generateArtifact c related moment a r m) s (fun x _ ↦ r.Extends x.1)
      fun _ _ ↦ True := by
  unfold generateArtifact
  refine (ends_any _ _).bind fun p t _ ↦ (ends_any _ _).bind fun attempt u _ ↦ ?_
  cases attempt.result with
  | ok o => exact (ends_pure _).2 ⟨rfl, List.subset_append_left _ _⟩
  | error e =>
    cases he : e.isDiskFailure with
    | false => simp [he]
    | true =>
      simp only [he, Bool.not_true, Bool.false_eq_true, if_false, ends_bind, Run.ends_say,
        ends_pure]
      exact ⟨rfl, List.subset_append_left _ _⟩

theorem ends_generateAll_extends :
    Ends (g.generateAll schema cs memory r) s (fun r' _ ↦ r.Extends r') fun _ _ ↦ True := by
  unfold generateAll
  have hentities : Ends (g.generateEntities schema 0 cs memory r (.empty g.root.toString)) s
      (fun x _ ↦ r.Extends x.1) fun _ _ ↦ True := by
    apply ends_generateEntities_of_each
    · intro x t u hx _ _
      exact hx
    · intro c related moment a x t hx
      exact ends_generateArtifact_extends.mono (fun y u hy ↦ hx.trans hy) fun _ _ ↦ id
    · exact .refl r
  apply hentities.bind
  intro x t hx
  simp only [ends_bind, Run.ends_say, ends_pure]
  exact ⟨hx.backup, hx.warnings⟩

theorem ends_registerRoute_extends :
    Ends (g.registerRoute c r) s (fun r' _ ↦ r.Extends r') fun _ _ ↦ True := by
  unfold registerRoute
  refine (ends_any _ _).bind fun result t _ ↦ ?_
  cases result with
  | error e => exact (ends_pure _).2 ⟨rfl, List.Subset.refl _⟩
  | ok route =>
    rw [ends_pure]
    split
    · exact ⟨rfl, List.Subset.refl _⟩
    · exact ⟨rfl, List.subset_append_left _ _⟩

theorem ends_registerRoutes_extends :
    Ends (g.registerRoutes cs r) s (fun r' _ ↦ r.Extends r') fun _ _ ↦ True := by
  unfold registerRoutes
  have hall : Ends
      ((cs.filter fun c ↦ c.toggles.isOn .controller).foldlM (fun r c ↦ g.registerRoute c r) r) s
      (fun r' _ ↦ r.Extends r') fun _ _ ↦ True :=
    Ends.foldlM (fun (r' : Report) _ ↦ r.Extends r') (.refl r) fun c _ r' t hr' ↦
      ends_registerRoute_extends.mono (fun _ _ h ↦ hr'.trans h) fun _ _ ↦ id
  exact hall.bind fun r' t hr' ↦ (ends_pure _).2 ⟨hr'.backup, hr'.warnings⟩

/-! ## Whole runs -/

theorem ends_run_warns (h : r.Warns) :
    Ends (g.run raw r) s (fun r' _ ↦ r'.Warns) fun _ _ ↦ True := by
  unfold run
  refine ends_validate_extends.bind ?_
  rintro ⟨r₁, schema⟩ t₁ h₁
  cases schema with
  | none => exact (ends_pure _).2 (h₁.warns h)
  | some schema =>
    refine ends_configure_extends.bind ?_
    rintro ⟨r₂, built⟩ t₂ h₂
    cases built with
    | none => exact (ends_pure _).2 (h₂.warns (h₁.warns h))
    | some built =>
      obtain ⟨cs, memory⟩ := built
      have hgenerate (r₃ : Report) (u : Scene) (h₃ : r₃.Warns) :
          Ends (do g.registerRoutes cs (← g.generateAll schema cs memory r₃)) u
            (fun r' _ ↦ r'.Warns) fun _ _ ↦ True :=
        ends_generateAll_extends.bind fun r₄ v h₄ ↦
          ends_registerRoutes_extends.mono (fun _ _ h₅ ↦ (h₄.trans h₅).warns h₃) fun _ _ ↦ id
      have hwarns := h₂.warns (h₁.warns h)
      cases g.settings.backup with
      | false => simpa using hgenerate r₂ t₂ hwarns
      | true =>
        apply (ends_backUp_warns hwarns).bind
        rintro ⟨r₃, ready⟩ u h₃
        cases ready with
        | false => exact (ends_pure _).2 h₃
        | true => exact hgenerate r₃ u h₃

theorem ends_generate_warns : Ends (g.generate raw) s (fun r _ ↦ r.Warns) fun _ _ ↦ True := by
  unfold generate
  exact (ends_any _ _).bind fun _ _ _ ↦ ends_run_warns (Report.warns_empty _ _)

theorem ends_generateFile_warns (file : Option Path) :
    Ends (g.generateFile file) s (fun r _ ↦ r.Warns) fun _ _ ↦ True := by
  unfold generateFile
  refine (ends_any _ _).bind fun root t _ ↦ (ends_any _ _).bind fun result u _ ↦ ?_
  cases result with
  | error e =>
    simp only [ends_bind, Run.ends_say, ends_pure]
    exact fun m hm ↦ by cases hm
  | ok entries =>
    simp only [ends_bind, Run.ends_say]
    exact ends_run_warns fun m hm ↦ by cases hm

/-- What a backup could not copy is reported, unless it is the route file: for every artifact of every
entity, and for the oldest migration of its table, there is a copy of what stood at its path or an
error that names the artifact, and runs warn of all errors of their backups. -/
theorem ends_create_reports (g : Generator) (cs : List Configuration)
    (hwords : ∀ c ∈ cs, c.studly = "" ∨ IsWord c.studly) (moment : Moment) (s : Scene)
    (hwf : s.disk.WellFormed) :
    Ends (g.store.create cs moment) s (fun m t ↦ g.store.Reported cs m s.disk t.disk)
        (fun _ _ ↦ True) ∧
      (∀ raw, Ends (g.generate raw) s (fun r _ ↦ r.Warns) fun _ _ ↦ True) ∧
      ∀ file, Ends (g.generateFile file) s (fun r _ ↦ r.Warns) fun _ _ ↦ True :=
  ⟨BackupStore.ends_create_reported hwf g.spelled_folder rfl hwords, fun _ ↦ ends_generate_warns,
    ends_generateFile_warns⟩

end Generator

namespace SmallProject

open BackupStore

/-- Directories stand where the model and the route file belong. -/
def blocked : Disk where
  nodes := [(["app"], .dir), (["app", "Models"], .dir), (["app", "Models", "Post.php"], .dir),
    (["routes"], .dir), (["routes", "api.php"], .dir)]
  cwd := []

/-- Neither the model nor the route file can be copied, but only the model is among the errors. -/
theorem create_reports : ∃ m t,
    (generator.store.create configurations moment).run.run ⟨blocked, [], []⟩ = (.ok m, t) ∧
      (∃ message : String, s!"Post.model: {message}" ∈ m.errors) ∧
        m.sharedExisted = true ∧ m.sharedCopy = .null := by
  obtain ⟨memory, hbuilt⟩ := exists_memory
  have hwords := (Configuration.built accepted hbuilt).words
  obtain ⟨m, t, hrun, -⟩ := exists_run_of_passes (generator.store.create configurations moment)
    ⟨blocked, [], []⟩ (fun _ _ ↦ true) (by decide +kernel)
  have hreported := (ends_of_run_ok hrun).1 (Generator.ends_create_reports generator configurations
    hwords moment ⟨blocked, [], []⟩ (by decide)).1
  have hno {o : Path} (h : ∃ e, blocked.readBytes (generator.store.root ++ o) = .error e)
      (copy : Value) : ¬HasCopy generator.store m blocked t.disk o copy := by
    obtain ⟨e, he⟩ := h
    rintro ⟨c, content, -, hread, -⟩
    rw [he] at hread
    cases hread
  refine ⟨m, t, hrun, ?_, (hreported.shared (by decide)).resolve_left (hno ⟨_, rfl⟩ _)⟩
  obtain ⟨c, hc, hstudly, hpath⟩ : ∃ c ∈ configurations, c.studly = "Post" ∧
      Artifact.fixedPath? .model c = some ⟨0, ["app", "Models", "Post.php"]⟩ := by decide +kernel
  obtain ⟨e, -, hcopied | ⟨message, hline⟩⟩ :=
    hreported.artifacts c hc .model _ (.fixed hpath) (by decide)
  · exact absurd hcopied.2 (hno ⟨_, rfl⟩ _)
  · rw [hstudly] at hline
    exact ⟨message, hline⟩

end SmallProject

end Scaffold
