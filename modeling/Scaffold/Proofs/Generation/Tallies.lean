import Scaffold.Proofs.Configuration.Relations
import Scaffold.Proofs.Generation.Whole

/-!
# The accounts of a report

Outcomes, the manifest of written files, errors and warnings are kept in different places.
`Report.Tallies` says that they agree on what became of the artifacts and of the routes. Each of
the ways in which an artifact or a registration can end keeps that.
-/

namespace Scaffold

/-! ## What is to be generated -/

namespace Component

/-- The components in the order of generation. -/
def inOrder : List Component :=
  [model, migration, request, resource, collection, service, controller, seeder]

/-- The artifacts of a component; a seeder comes after its factory. -/
def artifacts : Component → List Artifact
  | model => [.model]
  | migration => [.migration]
  | request => [.request]
  | resource => [.resource]
  | collection => [.collection]
  | service => [.service]
  | controller => [.controller]
  | seeder => [.factory, .seeder]

theorem component_of_mem_artifacts {c : Component} {a : Artifact} (h : a ∈ c.artifacts) :
    a.component = c := by
  cases c <;> simp only [artifacts, List.mem_cons, List.not_mem_nil, or_false] at h
  case seeder =>
    cases h with
    | inl h => rw [h]; rfl
    | inr h => rw [h]; rfl
  all_goals rw [h]; rfl

theorem mem_inOrder (c : Component) : c ∈ inOrder := by cases c <;> decide

end Component

/-- The enabled artifacts are those of the components that are on, one component after the other. -/
theorem Artifact.enabled_eq (t : Toggles) :
    enabled t = (Component.inOrder.filter t.isOn).flatMap Component.artifacts := by
  have hall : all = Component.inOrder.flatMap Component.artifacts := rfl
  have hpart (c : Component) : c.artifacts.filter (fun a ↦ t.isOn a.component) =
      if t.isOn c then c.artifacts else [] := by
    have hsame : c.artifacts.filter (fun a ↦ t.isOn a.component) =
        c.artifacts.filter fun _ ↦ t.isOn c := by
      apply List.filter_congr
      intro a ha
      rw [Component.component_of_mem_artifacts ha]
    rw [hsame]
    cases t.isOn c <;> simp
  unfold enabled
  rw [hall, List.filter_flatMap]
  simp only [hpart]
  generalize Component.inOrder = components
  induction components with
  | nil => rfl
  | cons c rest ih => cases hc : t.isOn c <;> simp [hc, ih]

/-- The components that are generated for an entity, in the order of generation; none if what it
says cannot be followed. -/
def Entity.components (e : Entity) : List Component :=
  match Toggles.resolve e.generate e.generateExcept with
  | .ok t => Component.inOrder.filter t.isOn
  | .error _ => []

namespace Schema

/-- The artifacts of all entities in the order of the schema, under the names of their entities. -/
def artifacts (schema : Schema) : List (String × String) :=
  schema.flatMap fun e ↦
    (e.2.components.flatMap Component.artifacts).map fun a ↦ (Name.studly e.1, a.name)

/-- The names of the entities with a controller. -/
def controlled (schema : Schema) : List String :=
  (schema.filter fun e ↦ e.2.components.contains .controller).map fun e ↦ Name.studly e.1

end Schema

namespace Configuration

variable {schema : Schema} {cs : List Configuration}

theorem TakesFrom.components {e : String × Entity} {c : Configuration} (h : TakesFrom e c) :
    e.2.components = Component.inOrder.filter c.toggles.isOn := by
  unfold Entity.components
  rw [h.toggles]

theorem artifacts_eq (h : List.Forall₂ TakesFrom schema cs) :
    schema.artifacts = (enabledArtifacts cs).map fun x ↦ (x.1.studly, x.2.name) := by
  unfold Schema.artifacts enabledArtifacts
  induction h with
  | nil => rfl
  | cons hc _ ih =>
    rw [List.flatMap_cons, List.flatMap_cons, List.map_append, ih, hc.components,
      ← Artifact.enabled_eq, ← hc.studly, List.map_map]
    rfl

theorem TakesFrom.contains_controller {e : String × Entity} {c : Configuration}
    (h : TakesFrom e c) : e.2.components.contains .controller = c.toggles.isOn .controller := by
  rw [h.components, Bool.eq_iff_iff, List.contains_iff_mem, List.mem_filter]
  exact and_iff_right (Component.mem_inOrder .controller)

theorem controlled_eq (h : List.Forall₂ TakesFrom schema cs) :
    schema.controlled = (routed cs).map (·.studly) := by
  unfold Schema.controlled routed
  induction h with
  | nil => rfl
  | cons hc _ ih =>
    rw [List.filter_cons, List.filter_cons, hc.contains_controller]
    split
    · rw [List.map_cons, List.map_cons, ih, hc.studly]
    · exact ih

end Configuration

/-! ## Outcomes -/

namespace Outcome

/-- What an outcome is about. -/
def subject (o : Outcome) : String × String := (o.entity, o.artifact)

/-- What is said of an outcome among errors and warnings. -/
def line (o : Outcome) : String := s!"{o.entity} {o.artifact}: {o.message}"

/-- What is said of the outcomes with a status. -/
def linesOf (status : ArtifactStatus) (os : List Outcome) : List String :=
  (os.filter (·.status == status)).map line

theorem linesOf_concat (status : ArtifactStatus) (os : List Outcome) (o : Outcome) :
    linesOf status (os ++ [o]) =
      linesOf status os ++ if o.status == status then [o.line] else [] := by
  unfold linesOf
  rw [List.filter_append, List.map_append]
  cases hstatus : o.status == status <;> simp [hstatus]

/-- An outcome has the record of the file at its path if it was written, and none otherwise. -/
def Recorded (o : Outcome) : Prop :=
  o.record.map (·.relativePath) = if o.isWritten then some o.path else none

variable {o : Outcome}

theorem Recorded.record_eq_none (h : o.Recorded) (hwritten : o.isWritten = false) :
    o.record = none := by
  unfold Recorded at h
  rw [hwritten] at h
  simpa using h

theorem Recorded.exists_record (h : o.Recorded) (hwritten : o.isWritten = true) :
    ∃ file, o.record = some file := by
  unfold Recorded at h
  rw [if_pos hwritten, Option.map_eq_some_iff] at h
  obtain ⟨file, hfile, -⟩ := h
  exact ⟨file, hfile⟩

end Outcome

/-- The manifest holds the records of the outcomes that were written, and their totals. -/
structure WriteManifest.Records (m : WriteManifest) (os : List Outcome) : Prop where
  recorded : ∀ o ∈ os, o.Recorded
  files : m.files.map some = (os.filter Outcome.isWritten).map (·.record)
  totalFiles : m.totalFiles = m.files.length
  totalBytes : m.totalBytes = (m.files.map (·.size)).sum
  totalLines : m.totalLines = (m.files.map (·.lines)).sum

namespace WriteManifest.Records

variable {m : WriteManifest} {os : List Outcome} {o : Outcome}

theorem empty (basePath : String) : (WriteManifest.empty basePath).Records [] :=
  ⟨by simp, rfl, rfl, rfl, rfl⟩

theorem addOutcome (h : m.Records os) (ho : o.Recorded) : (m.addOutcome o).Records (os ++ [o]) := by
  have hrecorded : ∀ o' ∈ os ++ [o], o'.Recorded := by
    rw [List.forall_mem_append, List.forall_mem_singleton]
    exact ⟨h.recorded, ho⟩
  unfold WriteManifest.addOutcome
  cases hwritten : o.isWritten with
  | false =>
    rw [ho.record_eq_none hwritten]
    exact ⟨hrecorded, by simp [h.files, hwritten], h.totalFiles, h.totalBytes, h.totalLines⟩
  | true =>
    obtain ⟨file, hfile⟩ := ho.exists_record hwritten
    rw [hfile]
    exact ⟨hrecorded, by simp [WriteManifest.add, h.files, hwritten, hfile],
      by simp [WriteManifest.add, h.totalFiles], by simp [WriteManifest.add, h.totalBytes],
      by simp [WriteManifest.add, h.totalLines]⟩

end WriteManifest.Records

/-- What became of the registration of the route of an entity. -/
structure Registration where
  entity : String
  result : Except Failure RouteResult

/-- What is said of a registration that failed. -/
def Registration.error? (x : Registration) : Option String :=
  match x.result with
  | .ok _ => none
  | .error e => some s!"Route for {x.entity}: {e.message}"

/-- The report tells of the outcomes that failed or were skipped, of the registrations, and of
nothing else that counts against the run. -/
structure Report.Tallies (r : Report) (m : WriteManifest) (registrations : List Registration) :
    Prop where
  records : m.Records r.outcomes
  routes : r.routes = registrations.filterMap (·.result.toOption)
  /-- One error for each artifact that failed, and one for each registration that failed. -/
  generationErrors : r.generationErrors =
    Outcome.linesOf .failed r.outcomes ++ registrations.filterMap Registration.error?
  /-- A warning for each artifact that was skipped, and one for each route that was not added. -/
  generationWarnings : List.Sublist
    (Outcome.linesOf .skipped r.outcomes ++
      (r.routes.filter fun x ↦ !x.added).map RouteResult.message) r.generationWarnings
  validationErrors : r.validationErrors = []
  backupErrors : r.backupErrors = []

namespace Report.Tallies

variable {r : Report} {m : WriteManifest} {o : Outcome} {registrations : List Registration}

/-- Without errors nothing failed. -/
theorem isSuccess_iff (h : r.Tallies m registrations) : r.isSuccess = true ↔
    (∀ o ∈ r.outcomes, o.status ≠ .failed) ∧ ∀ x ∈ registrations, ∃ route, x.result = .ok route := by
  have herror (x : Registration) : x.error? = none ↔ ∃ route, x.result = .ok route := by
    unfold Registration.error?
    cases x.result <;> simp
  unfold Report.isSuccess
  rw [h.validationErrors, h.backupErrors, h.generationErrors]
  simp [Outcome.linesOf, herror, List.filterMap_eq_nil_iff]

/-! ### Artifacts -/

/-- The accounts before any route is registered. -/
theorem of_outcomes (hrecords : m.Records r.outcomes) (hroutes : r.routes = [])
    (hfailed : r.generationErrors = Outcome.linesOf .failed r.outcomes)
    (hskipped : List.Sublist (Outcome.linesOf .skipped r.outcomes) r.generationWarnings)
    (hvalidation : r.validationErrors = []) (hbackup : r.backupErrors = []) : r.Tallies m [] where
  records := hrecords
  routes := hroutes
  generationErrors := by simpa using hfailed
  generationWarnings := by
    rw [hroutes]
    simpa using hskipped
  validationErrors := hvalidation
  backupErrors := hbackup

theorem of_fresh (h : r.Fresh) (basePath : String) : r.Tallies (.empty basePath) [] := by
  apply of_outcomes
  · rw [h.outcomes]
    exact .empty basePath
  · exact h.routes
  · rw [h.generationErrors, h.outcomes]
    rfl
  · rw [h.outcomes]
    exact List.nil_sublist _
  · exact h.validationErrors
  · exact h.backupErrors

theorem failed (h : r.Tallies m []) : r.generationErrors = Outcome.linesOf .failed r.outcomes := by
  simpa using h.generationErrors

theorem skipped_record (h : r.Tallies m []) (m' : WriteManifest) (o : Outcome) (bare : Bool) :
    List.Sublist (Outcome.linesOf .skipped (r.outcomes ++ [o]))
      (Generator.record r m' o bare).1.generationWarnings := by
  have hskipped := h.generationWarnings
  rw [h.routes] at hskipped
  rw [Outcome.linesOf_concat]
  apply List.Sublist.append
  · simpa using hskipped
  · exact List.sublist_append_right _ _

/-- The outcome of an artifact that did not fail keeps the accounts. -/
theorem record (h : r.Tallies m []) (ho : o.Recorded) (hstatus : o.status ≠ .failed)
    (bare : Bool) :
    (Generator.record r m o bare).1.Tallies (Generator.record r m o bare).2 [] := by
  apply of_outcomes
  · exact h.records.addOutcome ho
  · exact h.routes
  · change r.generationErrors = Outcome.linesOf .failed (r.outcomes ++ [o])
    rw [Outcome.linesOf_concat, h.failed, if_neg (by simpa using hstatus), List.append_nil]
  · exact h.skipped_record m o bare
  · exact h.validationErrors
  · exact h.backupErrors

/-- The outcome of an artifact that failed keeps the accounts if it is among the errors. -/
theorem record_failed (h : r.Tallies m []) (ho : o.Recorded) (hstatus : o.status = .failed)
    (bare : Bool) :
    (Generator.record (r.addError o.line) m o bare).1.Tallies
      (Generator.record (r.addError o.line) m o bare).2 [] := by
  apply of_outcomes
  · exact h.records.addOutcome ho
  · exact h.routes
  · change r.generationErrors ++ [o.line] = Outcome.linesOf .failed (r.outcomes ++ [o])
    rw [Outcome.linesOf_concat, h.failed, if_pos (by simpa using hstatus)]
  · exact h.skipped_record m o bare
  · exact h.validationErrors
  · exact h.backupErrors

/-! ### Routes -/

/-- A route that was registered keeps the accounts, with a warning if it was there already. -/
theorem registered (h : r.Tallies m registrations) (entity : String) (route : RouteResult) :
    let r' := { r with routes := r.routes ++ [route] }
    (if route.added then r' else r'.addWarnings [route.message]).Tallies m
      (registrations ++ [⟨entity, .ok route⟩]) := by
  intro r'
  let x : Registration := ⟨entity, .ok route⟩
  have hroutes : r.routes ++ [route] = (registrations ++ [x]).filterMap (·.result.toOption) := by
    rw [List.filterMap_append, ← h.routes]
    rfl
  have herrors : r.generationErrors = Outcome.linesOf .failed r.outcomes ++
      (registrations ++ [x]).filterMap Registration.error? := by
    rw [List.filterMap_append, ← List.append_assoc, ← h.generationErrors]
    exact (List.append_nil _).symm
  have hwarnings : List.Sublist
      (Outcome.linesOf .skipped r.outcomes ++
        ((r.routes ++ [route]).filter fun x ↦ !x.added).map RouteResult.message)
      (r.generationWarnings ++ if route.added then [] else [route.message]) := by
    rw [List.filter_append, List.map_append, ← List.append_assoc]
    apply h.generationWarnings.append
    cases hadded : route.added <;> simp [hadded]
  cases hadded : route.added with
  | true =>
    rw [hadded, if_pos rfl, List.append_nil] at hwarnings
    exact ⟨h.records, hroutes, herrors, hwarnings, h.validationErrors, h.backupErrors⟩
  | false =>
    rw [hadded] at hwarnings
    exact ⟨h.records, hroutes, herrors, hwarnings, h.validationErrors, h.backupErrors⟩

/-- A registration that failed keeps the accounts if it is among the errors. -/
theorem unregistered (h : r.Tallies m registrations) (entity : String) (e : Failure) :
    (r.addError s!"Route for {entity}: {e.message}").Tallies m
      (registrations ++ [⟨entity, .error e⟩]) where
  records := h.records
  routes := by
    rw [List.filterMap_append]
    exact h.routes.trans (List.append_nil _).symm
  generationErrors := by
    rw [List.filterMap_append, ← List.append_assoc]
    exact congrArg (· ++ [_]) h.generationErrors
  generationWarnings := h.generationWarnings
  validationErrors := h.validationErrors
  backupErrors := h.backupErrors

end Report.Tallies

end Scaffold
