import Scaffold.Proofs.Generation.Stopping
import Scaffold.Proofs.Generation.Tallies

/-!
# What the report of a run accounts for

Generating an artifact can end early in three ways: it is skipped, it cannot be rendered, or it cannot
be written. Each of them keeps the accounts of the report, and so does registering a route. So every
run that comes to generation ends with a report in which each enabled artifact stands once, and tells
of each in the places where it belongs.
-/

namespace Scaffold

/-! ## Artifacts -/

namespace Writer

variable {w : Writer} {s : Scene} {relative : Path} {entity artifact : String}

theorem ends_place_recorded (existed : Bool) (text : String) :
    Ends (w.place entity artifact relative existed text) s
      (fun o _ ↦ o.subject = (entity, artifact) ∧ o.Recorded ∧ o.status ≠ .failed)
      fun _ _ ↦ True := by
  have hstore : Ends (w.store relative text) s
      (fun file _ ↦ file.relativePath = relative.toString) fun _ _ ↦ True := by
    unfold store
    apply (ends_any _ _).bind
    intro _ t _
    apply (ends_any _ _).bind
    intro absolute u _
    exact (ends_pure _).2 rfl
  unfold place
  apply hstore.bind
  intro file t hfile
  simp only [ends_bind, Run.ends_say, ends_pure]
  refine ⟨rfl, ?_, ?_⟩
  · cases existed <;> simp [Outcome.Recorded, Outcome.isWritten, hfile]
  · cases existed <;> simp

/-- Whatever happens, an attempt to write an artifact ends well. -/
theorem ends_write_recorded (content : Run Rendering) :
    Ends (w.write entity artifact relative content) s
      (fun attempt _ ↦ ∀ o, attempt.result = .ok o →
        o.subject = (entity, artifact) ∧ o.Recorded ∧ o.status ≠ .failed)
      fun _ _ ↦ False := by
  unfold write
  apply (Run.ends_attempt_all (ends_any _ _)).bind
  intro decision t _
  cases decision with
  | error e => simp
  | ok decided =>
    cases decided with
    | error message =>
      apply (ends_pure _).2
      intro o ho
      obtain rfl := Except.ok.inj ho
      exact ⟨rfl, rfl, by simp⟩
    | ok existed =>
      apply (Run.ends_attempt_all (ends_any _ _)).bind
      intro rendering u _
      cases rendering with
      | error e => simp
      | ok rendering =>
        apply (Run.ends_attempt_all (ends_place_recorded existed rendering.text)).bind
        intro result v hresult
        apply (ends_pure _).2
        intro o ho
        exact hresult o ho

end Writer

namespace Generator

variable {g : Generator} {schema : Schema} {c : Configuration} {cs : List Configuration}
  {related : List String} {moment : Moment} {a : Artifact} {memory : Memory} {r : Report}
  {m : WriteManifest} {s : Scene}

/-- A failure that ends a run. The disk is only to blame if the path of the folder of the migrations
is too long: then no artifact can be written, and the path of a migration cannot be worked out. -/
def Fatal (g : Generator) (e : Failure) : Prop :=
  e.isDiskFailure = true → e = .disk ⟨.nameTooLong, g.root ++ Migration.folder⟩

theorem fatal_of_isDiskFailure {e : Failure} (h : e.isDiskFailure = false) : g.Fatal e := by
  intro hdisk
  rw [h] at hdisk
  cases hdisk

theorem fatal_build (e : BuildError) : g.Fatal (.build e) := by
  apply fatal_of_isDiskFailure
  cases e with
  | resolve reason => cases reason <;> rfl
  | selection reason => cases reason <;> rfl

/-- The artifact has an outcome, and the accounts are kept. -/
theorem ends_generateArtifact_tallies (h : r.Tallies m []) :
    Ends (g.generateArtifact c related moment a r m) s
      (fun x _ ↦ x.1.Tallies x.2 [] ∧
        x.1.outcomes.map Outcome.subject = r.outcomes.map Outcome.subject ++ [(c.studly, a.name)])
      fun e _ ↦ g.Fatal e := by
  unfold generateArtifact
  rw [ends_bind, ends_artifactPath related]
  constructor
  · intro p _
    apply Ends.bind ((Writer.ends_write_recorded _).mono (fun _ _ ↦ id) fun _ _ ↦ False.elim)
    intro attempt t hattempt
    cases hresult : attempt.result with
    | ok o =>
      obtain ⟨hsubject, hrecorded, hstatus⟩ := hattempt o hresult
      rw [ends_pure]
      constructor
      · exact h.record hrecorded hstatus _
      · simp [record, Report.addWarnings, hsubject]
    | error e =>
      cases he : e.isDiskFailure with
      | false =>
        simp only [he, Bool.not_false, if_true, ends_bind, ends_throw]
        exact fatal_of_isDiskFailure he
      | true =>
        simp only [he, Bool.not_true, Bool.false_eq_true, if_false, ends_bind, Run.ends_say,
          ends_pure]
        let o : Outcome := ⟨c.studly, a.name, p.toString, .failed, e.message, none⟩
        constructor
        · exact h.record_failed (show o.Recorded from rfl) rfl _
        · simp [record, Report.addWarnings, Report.addError, Outcome.subject]
  · intro e he _
    rw [(Task.refuses_of_pathOn he).2]

theorem ends_generateArtifacts_tallies (as : List Artifact) (h : r.Tallies m []) :
    Ends (g.generateArtifacts c related moment as r m) s
      (fun x _ ↦ x.1.Tallies x.2 [] ∧ x.1.outcomes.map Outcome.subject =
        r.outcomes.map Outcome.subject ++ as.map fun a ↦ (c.studly, a.name))
      fun e _ ↦ g.Fatal e := by
  induction as generalizing r m s with
  | nil => exact (ends_pure _).2 ⟨h, by simp⟩
  | cons a rest ih =>
    unfold generateArtifacts
    apply (ends_generateArtifact_tallies h).bind
    intro x t hx
    have hrest := ih (s := t) hx.1
    rwa [hx.2, List.append_assoc, List.singleton_append] at hrest

theorem ends_related_fatal :
    Ends (Generator.related schema c memory) s (fun _ _ ↦ True) fun e _ ↦ g.Fatal e := by
  unfold Generator.related
  cases (Resolve.related schema c.studly []).run.run memory with | mk result memory' =>
  simp only [ends_bind, Run.ends_sayAll, Run.ends_lift, ends_pure, implies_true, true_and]
  intro e _
  exact fatal_build _

theorem ends_generateEntities_tallies {i : ℕ} (h : r.Tallies m []) :
    Ends (g.generateEntities schema i cs memory r m) s
      (fun x _ ↦ x.1.Tallies x.2 [] ∧ x.1.outcomes.map Outcome.subject =
        r.outcomes.map Outcome.subject ++
          (enabledArtifacts cs).map fun x ↦ (x.1.studly, x.2.name))
      fun e _ ↦ g.Fatal e := by
  induction cs generalizing i memory r m s with
  | nil => exact (ends_pure _).2 ⟨h, by simp [enabledArtifacts]⟩
  | cons c rest ih =>
    unfold generateEntities
    cases g.moment.plus? i with
    | none =>
      simp only [ends_bind, ends_throw]
      exact fatal_of_isDiskFailure rfl
    | some moment =>
      simp only [pure_bind]
      apply ends_related_fatal.bind
      intro names t _
      apply (ends_generateArtifacts_tallies _ h).bind
      intro x u hx
      have hrest : Ends (g.generateEntities schema (i + 1) rest names.2 x.1 x.2) u _ _ := ih hx.1
      rw [hx.2, List.append_assoc] at hrest
      simpa [enabledArtifacts, Function.comp_def] using hrest

/-- After the artifacts of all entities the accounts are kept, and the report has the manifest. -/
theorem ends_generateAll_tallies (h : r.Fresh) :
    Ends (g.generateAll schema cs memory r) s
      (fun r' _ ↦ ∃ m, r'.written = some m ∧ r'.Tallies m [] ∧ r'.outcomes.map Outcome.subject =
        (enabledArtifacts cs).map fun x ↦ (x.1.studly, x.2.name))
      fun e _ ↦ g.Fatal e := by
  unfold generateAll
  apply (ends_generateEntities_tallies (.of_fresh h _)).bind
  intro x t hx
  obtain ⟨htallies, hsubjects⟩ := hx
  rw [h.outcomes] at hsubjects
  simp only [ends_bind, Run.ends_say, ends_pure]
  exact ⟨x.2, rfl, ⟨htallies.records, htallies.routes, htallies.generationErrors,
    htallies.generationWarnings, htallies.validationErrors, htallies.backupErrors⟩, hsubjects⟩

end Generator

/-! ## Routes -/

/-- The routes are registered one after the other, which leads from one scene to another. Only
failures of the disk are survived. -/
inductive Registers (f : RouteFile) : List Registration → Scene → Scene → Prop
  | stay (s : Scene) : Registers f [] s s
  | next {x : Registration} {rest : List Registration} {s t u : Scene}
      (hrun : (f.register (Name.table x.entity) (x.entity ++ "Controller")).run.run s = (x.result, t))
      (hsurvived : ∀ e, x.result = .error e → e.isDiskFailure = true)
      (hrest : Registers f rest t u) : Registers f (x :: rest) s u

namespace Generator

variable {g : Generator} {schema : Schema} {c : Configuration} {cs : List Configuration}
  {r : Report} {m : WriteManifest} {registrations : List Registration} {s : Scene}

/-- The route of an entity is registered or not, and the accounts are kept. -/
theorem ends_registerRoute_tallies (h : r.Tallies m registrations) :
    Ends (g.registerRoute c r) s
      (fun r' t ↦ ∃ x : Registration, x.entity = c.studly ∧
        (g.routes.register c.table (c.className "Controller")).run.run s = (x.result, t) ∧
        (∀ e, x.result = .error e → e.isDiskFailure = true) ∧
        r'.Tallies m (registrations ++ [x]) ∧
        r'.outcomes = r.outcomes ∧ r'.written = r.written)
      fun e _ ↦ g.Fatal e := by
  unfold registerRoute
  rw [ends_bind, Run.ends_attempt]
  cases run_ok_or_error (g.routes.register c.table (c.className "Controller")) s with
  | inl hok =>
    obtain ⟨route, t, hrun⟩ := hok
    rw [ends_of_run_ok hrun, ends_pure]
    refine ⟨⟨c.studly, .ok route⟩, rfl, hrun, by simp, h.registered c.studly route, ?_⟩
    cases route.added <;> exact ⟨rfl, rfl⟩
  | inr herror =>
    obtain ⟨e, t, hrun⟩ := herror
    rw [ends_of_run_error hrun]
    constructor
    · intro hdisk
      rw [ends_pure]
      refine ⟨⟨c.studly, .error e⟩, rfl, hrun, ?_, h.unregistered c.studly e, rfl, rfl⟩
      intro e' he'
      rwa [← Except.error.inj he']
    · exact fatal_of_isDiskFailure

theorem ends_foldlM_registerRoute (h : r.Tallies m registrations) :
    Ends (cs.foldlM (fun r c ↦ g.registerRoute c r) r) s
      (fun r' t ↦ ∃ more, more.map (·.entity) = cs.map (·.studly) ∧
        Registers g.routes more s t ∧ r'.Tallies m (registrations ++ more) ∧
        r'.outcomes = r.outcomes ∧ r'.written = r.written)
      fun e _ ↦ g.Fatal e := by
  induction cs generalizing r registrations s with
  | nil => exact (ends_pure _).2 ⟨[], rfl, .stay s, by rwa [List.append_nil], rfl, rfl⟩
  | cons c rest ih =>
    rw [List.foldlM_cons]
    apply (ends_registerRoute_tallies h).bind
    intro r' t hr'
    obtain ⟨x, hentity, hrun, hsurvived, htallies, houtcomes, hwritten⟩ := hr'
    apply (ih htallies).mono
    · intro r'' u hr''
      obtain ⟨more, hentities, hregisters, htallies', houtcomes', hwritten'⟩ := hr''
      refine ⟨x :: more, ?_, .next ?_ hsurvived hregisters, ?_, houtcomes'.trans houtcomes,
        hwritten'.trans hwritten⟩
      · rw [List.map_cons, List.map_cons, hentity, hentities]
      · rw [hentity]
        exact hrun
      · rwa [List.append_assoc, List.singleton_append] at htallies'
    · intro _ _ hfatal
      exact hfatal

end Generator

/-! ## Before generation -/

/-- Nothing has been reported that counts as an error, and nothing has been generated. -/
structure Report.Unstarted (r : Report) : Prop extends Report.Fresh r where
  written : r.written = none

/-- The run has failed before anything was generated. -/
structure Report.Stopped (r : Report) : Prop where
  isSuccess : r.isSuccess = false
  outcomes : r.outcomes = []
  routes : r.routes = []
  written : r.written = none

namespace Configuration

theorem ends_buildAll_takesFrom (schema : Schema) (memory : Memory) :
    Ends (buildAll schema) memory (fun cs _ ↦ List.Forall₂ TakesFrom schema cs)
      fun _ _ ↦ True := by
  have hall : Ends (buildAll schema) memory
      (fun cs _ ↦ List.Forall₂ TakesFrom schema cs ∧ True) fun _ _ ↦ True := by
    apply Ends.mapM trivial
    intro e _ memory' _
    apply (ends_build_takesFrom schema e memory').mono
    · intro c _ hc
      exact ⟨hc, trivial⟩
    · intro _ _ _
      trivial
  exact hall.mono (fun _ _ h ↦ h.1) fun _ _ h ↦ h

end Configuration

namespace Generator

variable {g : Generator} {raw : Value} {schema : Schema} {cs : List Configuration} {r : Report}
  {s : Scene}

/-- A value is refused, or it is accepted. -/
theorem ends_validate_started (h : r.Unstarted) :
    Ends (validate raw r) s
      (fun x _ ↦ match x with
        | (r', none) => r'.Stopped
        | (r', some schema) => r'.Unstarted ∧ schema.Accepted raw)
      fun e _ ↦ g.Fatal e := by
  unfold validate
  rw [ends_bind, Run.ends_lift]
  constructor
  · intro report hexamine
    obtain rfl := Validation.eq_validate_of_examine hexamine
    cases hvalid : (Validation.validate raw).isValid with
    | false =>
      have herrors : (Validation.validate raw).errors ≠ [] := by
        rwa [ValidationReport.isValid, List.isEmpty_eq_false_iff] at hvalid
      simp only [ends_bind, Run.ends_sayAll, Bool.not_false, if_true, ends_pure]
      refine ⟨isSuccess_eq_false (.inl ?_), h.outcomes, h.routes, h.written⟩
      simp [Report.addStep, herrors]
    | true =>
      obtain ⟨schema, haccepted⟩ := Validation.exists_accepted hvalid
      obtain ⟨entries, rfl, hread⟩ := haccepted.read
      have hno : (Validation.validate (.map entries)).errors = [] := List.isEmpty_iff.1 hvalid
      simp only [hread, hno, ends_bind, Run.ends_sayAll, Bool.not_true, Bool.false_eq_true,
        if_false, List.map_nil, Run.ends_lift, Except.ok.injEq, forall_eq', ends_pure,
        reduceCtorEq, false_imp_iff, implies_true, and_true]
      refine ⟨⟨⟨?_, h.generationErrors, h.backupErrors, h.outcomes, h.routes⟩, h.written⟩,
        haccepted⟩
      simpa [Report.addStep] using h.validationErrors
  · intro e _
    exact fatal_of_isDiskFailure rfl

theorem ends_configure_started (h : r.Unstarted) :
    Ends (configure schema r) s
      (fun x _ ↦ match x with
        | (r', none) => r'.Stopped
        | (r', some (cs, _)) => r'.Unstarted ∧ List.Forall₂ Configuration.TakesFrom schema cs)
      fun e _ ↦ g.Fatal e := by
  have hbuild := Configuration.ends_buildAll_takesFrom schema Memory.empty
  unfold configure
  cases run_ok_or_error (Configuration.buildAll schema) Memory.empty with
  | inl hok =>
    obtain ⟨cs, memory, hrun⟩ := hok
    rw [ends_of_run_ok hrun] at hbuild
    simp only [hrun, ends_bind, Run.ends_sayAll, ends_pure]
    exact ⟨⟨⟨h.validationErrors, h.generationErrors, h.backupErrors, h.outcomes, h.routes⟩,
      h.written⟩, hbuild⟩
  | inr herror =>
    obtain ⟨e, memory, hrun⟩ := herror
    simp only [hrun, ends_bind, Run.ends_sayAll]
    split
    · exact (ends_throw _).2 (fatal_build e)
    · simp only [ends_bind, Run.ends_say, ends_pure]
      refine ⟨isSuccess_eq_false (.inr (.inl ?_)), h.outcomes, h.routes, h.written⟩
      simp [Report.addStep, Report.addError]

theorem ends_backUp_started (h : r.Unstarted) :
    Ends (g.backUp cs r) s
      (fun x _ ↦ match x with
        | (r', false) => r'.Stopped
        | (r', true) => r'.Unstarted)
      fun e _ ↦ g.Fatal e := by
  unfold backUp
  rw [ends_bind, Run.ends_attempt]
  apply (ends_any _ _).mono
  · intro manifest t _
    rw [ends_pure]
    exact ⟨⟨h.validationErrors, h.generationErrors, h.backupErrors, h.outcomes, h.routes⟩, h.written⟩
  · intro e t _
    constructor
    · intro _
      simp only [ends_bind, Run.ends_say, ends_pure]
      refine ⟨isSuccess_eq_false (.inr (.inr ?_)), h.outcomes, h.routes, h.written⟩
      simp [Report.addStep]
    · exact fatal_of_isDiskFailure

end Generator

/-! ## The whole run -/

/-- The report accounts for a run that generated the artifacts of a schema. -/
structure Report.Accounts (r : Report) (schema : Schema) (m : WriteManifest)
    (registrations : List Registration) : Prop extends Report.Tallies r m registrations where
  written : r.written = some m
  /-- One outcome for each enabled artifact, in the order of the schema and of its components. -/
  outcomes : r.outcomes.map Outcome.subject = schema.artifacts
  /-- One registration for each entity with a controller. -/
  registered : registrations.map (·.entity) = schema.controlled
  isSuccess_iff : r.isSuccess = true ↔ (∀ o ∈ r.outcomes, o.status ≠ .failed) ∧
    ∀ x ∈ registrations, ∃ route, x.result = .ok route

namespace Generator

variable {g : Generator} {raw : Value} {schema : Schema} {cs : List Configuration}
  {memory : Memory} {r : Report} {s : Scene}

/-- A run over a raw value stops before it generates anything, or it generates the artifacts of the
schema behind the value and accounts for that. -/
def Accounted (g : Generator) (raw : Value) (r : Report) (t : Scene) : Prop :=
  r.Stopped ∨ ∃ schema m registrations s, schema.Accepted raw ∧
    Registers g.routes registrations s t ∧ r.Accounts schema m registrations

theorem ends_registerRoutes_accounts (h : r.Fresh)
    (hcs : List.Forall₂ Configuration.TakesFrom schema cs) :
    Ends (do g.registerRoutes cs (← g.generateAll schema cs memory r)) s
      (fun r' t ↦ ∃ m registrations s', Registers g.routes registrations s' t ∧
        r'.Accounts schema m registrations)
      fun e _ ↦ g.Fatal e := by
  apply (ends_generateAll_tallies h).bind
  intro r₁ t hr₁
  obtain ⟨m, hwritten, htallies, hsubjects⟩ := hr₁
  unfold registerRoutes
  apply (ends_foldlM_registerRoute htallies).bind
  intro r₂ u hr₂
  obtain ⟨registrations, hentities, hregisters, htallies', houtcomes, hwritten'⟩ := hr₂
  rw [ends_pure]
  refine ⟨m, registrations, t, hregisters, ⟨⟨htallies'.records, htallies'.routes,
    htallies'.generationErrors, htallies'.generationWarnings, htallies'.validationErrors,
    htallies'.backupErrors⟩, hwritten'.trans hwritten, ?_, ?_, htallies'.isSuccess_iff⟩⟩
  · rw [Configuration.artifacts_eq hcs, ← hsubjects]
    exact congrArg (List.map Outcome.subject) houtcomes
  · rw [Configuration.controlled_eq hcs]
    exact hentities

theorem ends_run_accounted (h : r.Unstarted) :
    Ends (g.run raw r) s (g.Accounted raw) fun e _ ↦ g.Fatal e := by
  unfold run
  apply (ends_validate_started h).bind
  intro x t hx
  cases x with | mk r₁ validated =>
  cases validated with
  | none => exact (ends_pure _).2 (.inl hx)
  | some schema =>
    obtain ⟨hr₁, haccepted⟩ := hx
    apply (ends_configure_started hr₁).bind
    intro y u hy
    cases y with | mk r₂ configured =>
    cases configured with
    | none => exact (ends_pure _).2 (.inl hy)
    | some built =>
      cases built with | mk cs memory =>
      obtain ⟨hr₂, hcs⟩ := hy
      have hgenerate (r₃ : Report) (v : Scene) (hr₃ : r₃.Unstarted) :
          Ends (do g.registerRoutes cs (← g.generateAll schema cs memory r₃)) v
            (g.Accounted raw) fun e _ ↦ g.Fatal e := by
        apply (ends_registerRoutes_accounts hr₃.toFresh hcs).mono
        · intro r' w hr'
          obtain ⟨m, registrations, s', hregisters, haccounts⟩ := hr'
          exact .inr ⟨schema, m, registrations, s', haccepted, hregisters, haccounts⟩
        · intro _ _ hfatal
          exact hfatal
      cases g.settings.backup with
      | false => simpa using hgenerate r₂ u hr₂
      | true =>
        apply (ends_backUp_started hr₂).bind
        intro z v hz
        cases z with | mk r₃ ready =>
        cases ready with
        | false => exact (ends_pure _).2 (.inl hz)
        | true => exact hgenerate r₃ v hz

theorem fatal_of_absoluteRoot {e : DiskError} {d : Disk} (h : d.absoluteOf g.root = .error e) :
    g.Fatal (.disk e) := by
  unfold Disk.absoluteOf at h
  split at h
  · obtain rfl := Except.error.inj h
    exact fatal_of_isDiskFailure rfl
  · cases h

theorem unstarted_empty (basePath schemaFile : String) :
    (Report.empty basePath schemaFile).Unstarted :=
  ⟨Report.fresh_empty basePath schemaFile, rfl⟩

/-- A run over a raw value or over a schema file that comes to its report has stopped before it
generated anything, or its report accounts for what it generated. No failure of the disk keeps a run
from its report, unless the schema file cannot be loaded or the path of the project is too long. -/
theorem ends_accounted (g : Generator) (s : Scene) :
    (∀ raw, Ends (g.generate raw) s (g.Accounted raw) fun e _ ↦ g.Fatal e) ∧
    ∀ file, Ends (g.generateFile file) s
      (fun r t ↦ match (Run.loadSchema (g.fileOf file)).resultOn s.disk with
        | .ok entries => g.Accounted (.map entries) r t
        | .error _ => r.Stopped)
      fun e _ ↦ g.Fatal e ∨ (Run.loadSchema (g.fileOf file)).resultOn s.disk = .error e := by
  constructor
  · intro raw
    unfold generate absoluteRoot
    simp only [ends_bind, Run.ends_query, ends_pure]
    constructor
    · intro root _
      exact ends_run_accounted (unstarted_empty _ _)
    · intro e he
      exact fatal_of_absoluteRoot he
  · intro file
    unfold generateFile absoluteRoot
    simp only [ends_bind, Run.ends_query, ends_pure]
    constructor
    · intro root _
      rw [Run.ends_attempt]
      apply (Run.reads_loadSchema _).ends
      · intro entries log hload
        have hload' : (Run.loadSchema (g.fileOf file)).resultOn s.disk = .ok entries := hload
        simp only [hload', ends_bind, Run.ends_say]
        apply (ends_run_accounted _).mono
        · intro r t hr
          exact hr
        · intro e _ hfatal
          exact .inl hfatal
        · exact ⟨⟨rfl, rfl, rfl, rfl, rfl⟩, rfl⟩
      · intro e log hload
        have hload' : (Run.loadSchema (g.fileOf file)).resultOn s.disk = .error e := hload
        rw [hload']
        constructor
        · intro _
          simp only [ends_bind, Run.ends_say, ends_pure]
          refine ⟨isSuccess_eq_false (.inr (.inl ?_)), rfl, rfl, rfl⟩
          simp [Report.addStep, Report.addError]
        · intro _
          exact .inr rfl
    · intro e he
      exact .inl (fatal_of_absoluteRoot he)

end Generator

end Scaffold
