import Scaffold.Proofs.Generation.Accounts

/-!
# Steps and verdict

A run notes each of its steps with whether it succeeded, and in the end it is judged by the errors
that were reported. All steps have succeeded exactly if the run has come to its artifacts and none of
them failed. The routes make a difference: their step counts as a success however many of them could
not be registered, but each of these is an error.
-/

namespace Scaffold

namespace Report

variable {r r' : Report} {success : Bool}

/-- All steps have succeeded. -/
def StepsSucceed (r : Report) : Prop := ∀ step ∈ r.steps, step.success = true

theorem stepsSucceed_empty (basePath schemaFile : String) :
    (empty basePath schemaFile).StepsSucceed := by
  simp [empty, StepsSucceed]

/-- One more step has been noted. -/
def Notes (success : Bool) (r r' : Report) : Prop :=
  ∃ name detail, r'.steps = r.steps ++ [⟨name, success, detail⟩]

theorem notes_addStep (r : Report) (name : String) (success : Bool) (detail : String) :
    r.Notes success (r.addStep name success detail) :=
  ⟨name, detail, rfl⟩

theorem Notes.stepsSucceed_iff (h : r.Notes success r') :
    r'.StepsSucceed ↔ r.StepsSucceed ∧ success = true := by
  obtain ⟨name, detail, hsteps⟩ := h
  rw [StepsSucceed, hsteps, List.forall_mem_append, List.forall_mem_singleton]
  rfl

theorem count_failed_eq_zero_iff (r : Report) :
    r.count .failed = 0 ↔ ∀ o ∈ r.outcomes, o.status ≠ .failed := by
  simp [count, List.countP_eq_zero]

end Report

namespace Generator

variable {g : Generator} {raw : Value} {schema : Schema} {c : Configuration}
  {cs : List Configuration} {related : List String} {moment : Moment} {a : Artifact}
  {memory : Memory} {r : Report} {m : WriteManifest} {s : Scene}

/-! ## The steps before anything is written -/

/-- Validating is a success exactly if the run goes on with a schema. -/
theorem ends_validate_notes :
    Ends (validate raw r) s
      (fun x _ ↦ r.Notes x.2.isSome x.1 ∧ x.1.written = r.written) fun _ _ ↦ True := by
  unfold validate
  rw [ends_bind, Run.ends_lift]
  constructor
  · intro report hexamine
    obtain rfl := Validation.eq_validate_of_examine hexamine
    cases hvalid : (Validation.validate raw).isValid with
    | false =>
      simp only [ends_bind, Run.ends_sayAll, Bool.not_false, if_true, ends_pure]
      exact ⟨⟨_, _, rfl⟩, rfl⟩
    | true =>
      obtain ⟨schema, haccepted⟩ := Validation.exists_accepted hvalid
      obtain ⟨entries, rfl, hread⟩ := haccepted.read
      simp only [hread, ends_bind, Run.ends_sayAll, Bool.not_true, Bool.false_eq_true, if_false,
        Run.ends_lift, Except.ok.injEq, forall_eq', ends_pure, reduceCtorEq, implies_true, and_true]
      exact ⟨⟨_, _, rfl⟩, rfl⟩
  · intro _ _
    trivial

/-- Working the entities out is a success exactly if the run goes on with them. -/
theorem ends_configure_notes :
    Ends (configure schema r) s
      (fun x _ ↦ r.Notes x.2.isSome x.1 ∧ x.1.written = r.written) fun _ _ ↦ True := by
  unfold configure
  cases (Configuration.buildAll schema).run.run Memory.empty with | mk built memory =>
  cases built with
  | ok cs =>
    simp only [ends_bind, Run.ends_sayAll, ends_pure]
    exact ⟨⟨_, _, rfl⟩, rfl⟩
  | error e =>
    simp only [ends_bind, Run.ends_sayAll]
    split
    · exact (ends_throw _).2 trivial
    · simp only [ends_bind, Run.ends_say, ends_pure]
      exact ⟨⟨_, _, rfl⟩, rfl⟩

/-- A backup is a success exactly if the run goes on after it. -/
theorem ends_backUp_notes :
    Ends (g.backUp cs r) s
      (fun x _ ↦ r.Notes x.2 x.1 ∧ x.1.written = r.written) fun _ _ ↦ True := by
  unfold backUp
  rw [ends_bind, Run.ends_attempt]
  apply (ends_any _ _).mono
  · intro manifest t _
    rw [ends_pure]
    exact ⟨⟨_, _, rfl⟩, rfl⟩
  · intro e t _
    constructor
    · intro _
      simp only [ends_bind, Run.ends_say, ends_pure]
      exact ⟨⟨_, _, rfl⟩, rfl⟩
    · intro _
      trivial

/-! ## The step of the artifacts -/

/-- An artifact by itself is no step. -/
theorem ends_generateArtifact_steps :
    Ends (g.generateArtifact c related moment a r m) s (fun x _ ↦ x.1.steps = r.steps)
      fun _ _ ↦ True := by
  unfold generateArtifact
  apply (ends_any _ _).bind
  intro p t _
  apply (ends_any _ _).bind
  intro attempt u _
  cases attempt.result with
  | ok o => exact (ends_pure _).2 rfl
  | error e =>
    cases he : e.isDiskFailure with
    | false => simp [he]
    | true =>
      simp only [he, Bool.not_true, Bool.false_eq_true, if_false, ends_bind, Run.ends_say,
        ends_pure]
      rfl

theorem ends_generateEntities_steps {i : ℕ} :
    Ends (g.generateEntities schema i cs memory r m) s (fun x _ ↦ x.1.steps = r.steps)
      fun _ _ ↦ True := by
  apply ends_generateEntities_of_each
  · intro x t u hx _ _
    exact hx
  · intro c related moment a x t hx
    apply ends_generateArtifact_steps.mono
    · intro y u hy
      exact hy.trans hx
    · intro _ _ _
      trivial
  · rfl

/-- Generating the artifacts is a success exactly if none of them failed. -/
theorem ends_generateAll_notes :
    Ends (g.generateAll schema cs memory r) s
      (fun r' _ ↦ r.Notes (r'.count .failed == 0) r' ∧ r'.written.isSome) fun _ _ ↦ True := by
  unfold generateAll
  apply ends_generateEntities_steps.bind
  intro x t hx
  simp only [ends_bind, Run.ends_say, ends_pure]
  exact ⟨⟨_, _, congrArg (· ++ _) hx⟩, rfl⟩

/-! ## The step of the routes -/

/-- A route by itself is no step, and nothing is said of artifacts. -/
theorem ends_registerRoute_steps :
    Ends (g.registerRoute c r) s
      (fun r' _ ↦ r'.steps = r.steps ∧ r'.outcomes = r.outcomes ∧ r'.written = r.written)
      fun _ _ ↦ True := by
  unfold registerRoute
  apply (ends_any _ _).bind
  intro result t _
  cases result with
  | error e => exact (ends_pure _).2 ⟨rfl, rfl, rfl⟩
  | ok route =>
    rw [ends_pure]
    cases route.added <;> exact ⟨rfl, rfl, rfl⟩

/-- Registering the routes counts as a success, whatever becomes of them. -/
theorem ends_registerRoutes_notes :
    Ends (g.registerRoutes cs r) s
      (fun r' _ ↦ r.Notes true r' ∧ r'.outcomes = r.outcomes ∧ r'.written = r.written)
      fun _ _ ↦ True := by
  unfold registerRoutes
  have hroutes : Ends
      ((cs.filter fun c ↦ c.toggles.isOn .controller).foldlM (fun r c ↦ g.registerRoute c r) r) s
      (fun r' _ ↦ r'.steps = r.steps ∧ r'.outcomes = r.outcomes ∧ r'.written = r.written)
      fun _ _ ↦ True := by
    apply Ends.foldlM (fun (r' : Report) _ ↦ r'.steps = r.steps ∧ r'.outcomes = r.outcomes ∧
      r'.written = r.written) ⟨rfl, rfl, rfl⟩
    rintro c _ r' t ⟨hsteps, houtcomes, hwritten⟩
    apply ends_registerRoute_steps.mono
    · rintro r'' u ⟨hsteps', houtcomes', hwritten'⟩
      exact ⟨hsteps'.trans hsteps, houtcomes'.trans houtcomes, hwritten'.trans hwritten⟩
    · intro _ _ _
      trivial
  apply hroutes.bind
  rintro r' t ⟨hsteps, houtcomes, hwritten⟩
  rw [ends_pure]
  exact ⟨⟨_, _, congrArg (· ++ _) hsteps⟩, houtcomes, hwritten⟩

/-! ## Whole runs -/

/-- The steps of a run after those of the report it started with have all succeeded exactly if the
run has come to its artifacts and none of them failed. -/
def StepsTell (r r' : Report) : Prop :=
  r'.StepsSucceed ↔ r.StepsSucceed ∧ r'.written.isSome ∧ ∀ o ∈ r'.outcomes, o.status ≠ .failed

theorem StepsTell.of_notes {r₁ r' : Report} (h : r.Notes true r₁) (h' : StepsTell r₁ r') :
    StepsTell r r' := by
  unfold StepsTell at h' ⊢
  rw [h', h.stepsSucceed_iff, and_iff_left rfl]

/-- A step that failed ends the run before its artifacts. -/
theorem StepsTell.of_failed {r' : Report} (h : r.Notes false r') (hwritten : r'.written = none) :
    StepsTell r r' := by
  simp [StepsTell, h.stepsSucceed_iff, hwritten]

theorem ends_registerRoutes_stepsTell :
    Ends (do g.registerRoutes cs (← g.generateAll schema cs memory r)) s
      (fun r' _ ↦ StepsTell r r') fun _ _ ↦ True := by
  apply ends_generateAll_notes.bind
  rintro r₁ t ⟨hnotes, hwritten⟩
  apply ends_registerRoutes_notes.mono
  · rintro r' u ⟨hnotes', houtcomes, hwritten'⟩
    rw [StepsTell, hnotes'.stepsSucceed_iff, hnotes.stepsSucceed_iff, hwritten', houtcomes, beq_iff_eq,
      r₁.count_failed_eq_zero_iff]
    simp [hwritten]
  · intro _ _ _
    trivial

theorem ends_run_stepsTell (hwritten : r.written = none) :
    Ends (g.run raw r) s (fun r' _ ↦ StepsTell r r') fun _ _ ↦ True := by
  unfold run
  apply ends_validate_notes.bind
  rintro ⟨r₁, validated⟩ t ⟨hnotes₁, hwritten₁⟩
  cases validated with
  | none => exact (ends_pure _).2 (.of_failed hnotes₁ (hwritten₁.trans hwritten))
  | some schema =>
    apply ends_configure_notes.bind
    rintro ⟨r₂, configured⟩ u ⟨hnotes₂, hwritten₂⟩
    cases configured with
    | none =>
      rw [ends_pure]
      exact .of_notes hnotes₁ (.of_failed hnotes₂ (hwritten₂.trans (hwritten₁.trans hwritten)))
    | some built =>
      cases built with | mk cs memory =>
      have hgenerate (r₃ : Report) (v : Scene) (h : ∀ r', StepsTell r₃ r' → StepsTell r r') :
          Ends (do g.registerRoutes cs (← g.generateAll schema cs memory r₃)) v
            (fun r' _ ↦ StepsTell r r') fun _ _ ↦ True :=
        ends_registerRoutes_stepsTell.mono (fun r' _ ↦ h r') fun _ _ ↦ id
      cases g.settings.backup with
      | false => simpa using hgenerate r₂ u fun _ h ↦ .of_notes hnotes₁ (.of_notes hnotes₂ h)
      | true =>
        apply ends_backUp_notes.bind
        rintro ⟨r₃, ready⟩ v ⟨hnotes₃, hwritten₃⟩
        cases ready with
        | false =>
          simp only [Bool.not_false, if_true, ends_pure]
          exact .of_notes hnotes₁ (.of_notes hnotes₂ (.of_failed hnotes₃
            (hwritten₃.trans (hwritten₂.trans (hwritten₁.trans hwritten)))))
        | true =>
          exact hgenerate r₃ v fun _ h ↦ .of_notes hnotes₁ (.of_notes hnotes₂ (.of_notes hnotes₃ h))

/-! ## The verdict -/

/-- The run is judged a success exactly if all of its steps are and no route failed to be registered.
The routes that were tried stand in the report: those that were registered among the routes, the
others among the errors. -/
def Judged (g : Generator) (r : Report) (t : Scene) : Prop :=
  ∃ (registrations : List Registration) (s : Scene), Registers g.routes registrations s t ∧
    r.routes = registrations.filterMap (·.result.toOption) ∧
    registrations.filterMap Registration.error? <:+ r.generationErrors ∧
    (r.isSuccess = true ↔
      r.StepsSucceed ∧ ∀ x ∈ registrations, ∃ route, x.result = .ok route)

/-- A run that stopped before its artifacts tried no route. -/
theorem judged_of_stopped {t : Scene} (h : r.Stopped) (hsteps : ¬r.StepsSucceed) : g.Judged r t := by
  refine ⟨[], t, .stay t, h.routes, List.nil_suffix, ?_⟩
  simp [h.isSuccess, hsteps]

theorem judged_of_accounted {r' : Report} {t : Scene} (hsucceed : r.StepsSucceed)
    (haccounted : g.Accounted raw r' t) (hsteps : StepsTell r r') : g.Judged r' t := by
  unfold StepsTell at hsteps
  cases haccounted with
  | inl hstopped =>
    apply judged_of_stopped hstopped
    rw [hsteps, hstopped.written]
    simp
  | inr haccounts =>
    obtain ⟨schema, m, registrations, s, -, hregisters, haccounts⟩ := haccounts
    refine ⟨registrations, s, hregisters, haccounts.routes, ?_, ?_⟩
    · rw [haccounts.generationErrors]
      exact List.suffix_append _ _
    · rw [haccounts.isSuccess_iff, hsteps, haccounts.written]
      simp [hsucceed]

theorem ends_run_judged (hunstarted : r.Unstarted) (hsucceed : r.StepsSucceed) :
    Ends (g.run raw r) s g.Judged fun _ _ ↦ True := by
  apply ((ends_run_accounted hunstarted).and (ends_run_stepsTell hunstarted.written)).mono
  · rintro r' t ⟨haccounted, hsteps⟩
    exact judged_of_accounted hsucceed haccounted hsteps
  · intro _ _ _
    trivial

/-- The verdict on a run over a raw value or a schema file agrees with its steps, except where a route
could not be registered: then the run has failed although the step of the routes has not. -/
theorem ends_judged (g : Generator) (s : Scene) :
    (∀ raw, Ends (g.generate raw) s g.Judged fun _ _ ↦ True) ∧
      ∀ file, Ends (g.generateFile file) s g.Judged fun _ _ ↦ True := by
  constructor
  · intro raw
    unfold generate
    apply (ends_any _ _).bind
    intro root t _
    exact ends_run_judged (unstarted_empty _ _) (Report.stepsSucceed_empty _ _)
  · intro file
    unfold generateFile
    apply (ends_any _ _).bind
    intro root t _
    apply (ends_any _ _).bind
    intro loaded u _
    cases loaded with
    | error e =>
      simp only [ends_bind, Run.ends_say, ends_pure]
      apply judged_of_stopped
      · refine ⟨isSuccess_eq_false (.inr (.inl ?_)), rfl, rfl, rfl⟩
        simp [Report.addStep, Report.addError]
      · rw [(Report.notes_addStep _ _ _ _).stepsSucceed_iff]
        simp
    | ok entries =>
      simp only [ends_bind, Run.ends_say]
      apply ends_run_judged
      · exact ⟨⟨rfl, rfl, rfl, rfl, rfl⟩, rfl⟩
      · rw [(Report.notes_addStep _ _ _ _).stepsSucceed_iff]
        exact ⟨Report.stepsSucceed_empty _ _, rfl⟩

end Generator

end Scaffold
