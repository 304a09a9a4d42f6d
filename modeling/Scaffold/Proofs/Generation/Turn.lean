import Scaffold.Generation.Pipeline
import Scaffold.Proofs.Disk.Growth
import Scaffold.Proofs.Run.Reading

/-!
# The turn of an artifact

When the turn of an artifact comes its path is worked out, what stands there is looked at, and the
policy decides. Then the artifact is rendered and written. `Writer.Takes` lists all ways in which
this can go, with the disk that each leaves.
-/

namespace Scaffold

/-! ## Asking before writing -/

namespace Writer

/-- The question whether an artifact may be replaced. -/
def question (relative : Path) : String := s!"{relative.toString} already exists. Overwrite?"

/-- May what is at a path be replaced, if these questions have been asked before? -/
def permits (w : Writer) (asked : List String) (relative : Path) : Bool :=
  match w.policy, w.answers with
  | .force, _ => true
  | .prompt, some answers => answers asked (question relative)
  | _, _ => false

/-- The questions that are asked when an artifact is already there. -/
def questions (w : Writer) (relative : Path) : List String :=
  match w.policy, w.answers with
  | .prompt, some _ => [question relative]
  | _, _ => []

/-- The questions that are asked about a path on a disk. -/
def asks (w : Writer) (d : Disk) (relative : Path) : List String :=
  match d.isThere (w.root ++ relative) with
  | .ok true => w.questions relative
  | _ => []

variable {w : Writer} {relative : Path} {s : Scene}

theorem ends_mayReplace {good : Bool → Scene → Prop} {bad : Failure → Scene → Prop} :
    Ends (w.mayReplace relative) s good bad ↔
      good (w.permits s.asked relative) { s with asked := s.asked ++ w.questions relative } := by
  obtain ⟨root, policy, answers, safely⟩ := w
  cases policy <;> cases answers <;> simp [mayReplace, permits, questions, question]

/-- How the attempt to write an artifact goes from a disk: what becomes of the artifact, and the
disk afterwards. -/
inductive Takes (w : Writer) (content : Run Rendering) (relative : Path) (d : Disk)
    (asked : List String) : Except Failure ArtifactStatus → Disk → Prop
  /-- The disk does not say whether something is there. -/
  | unanswered {e : DiskError} (hthere : d.isThere (w.root ++ relative) = .error e) :
      Takes w content relative d asked (.error (.disk e)) d
  /-- What is there must not be replaced. -/
  | kept (hthere : d.isThere (w.root ++ relative) = .ok true)
      (hforbids : w.permits asked relative = false) :
      Takes w content relative d asked (.ok .skipped) d
  | unrendered {there : Bool} {e : Failure} (hthere : d.isThere (w.root ++ relative) = .ok there)
      (hpermits : there = true → w.permits asked relative = true)
      (hcontent : content.resultOn d = .error e) :
      Takes w content relative d asked (.error e) d
  | refused {there : Bool} {rendering : Rendering} {e : DiskError} {d' : Disk}
      (hthere : d.isThere (w.root ++ relative) = .ok there)
      (hpermits : there = true → w.permits asked relative = true)
      (hcontent : content.resultOn d = .ok rendering)
      (hwrite : (DiskOp.writeFile (w.root ++ relative) (Text.encode rendering.text)
        w.safely).run.run d = (.error e, d')) :
      Takes w content relative d asked (.error (.disk e)) d'
  | placed {there : Bool} {rendering : Rendering} {d' : Disk}
      (hthere : d.isThere (w.root ++ relative) = .ok there)
      (hpermits : there = true → w.permits asked relative = true)
      (hcontent : content.resultOn d = .ok rendering)
      (hwrite : (DiskOp.writeFile (w.root ++ relative) (Text.encode rendering.text)
        w.safely).run.run d = (.ok (), d')) :
      Takes w content relative d asked (.ok (if there then .replaced else .created)) d'

theorem Takes.ne_failed {content : Run Rendering} {d d' : Disk} {asked : List String}
    {status : ArtifactStatus} (h : Takes w content relative d asked (.ok status) d') :
    status ≠ .failed := by
  cases h with
  | kept => simp
  | placed => split <;> simp

/-- The outcome of an attempt that ended with a status. -/
structure Tells (entity artifact : String) (relative : Path) (status : ArtifactStatus)
    (o : Outcome) : Prop where
  entity : o.entity = entity
  artifact : o.artifact = artifact
  path : o.path = relative.toString
  status : o.status = status

/-- An attempt has the given result. -/
def Yields (entity artifact : String) (relative : Path) (attempt : Attempt) :
    Except Failure ArtifactStatus → Prop
  | .ok status => ∃ o, attempt.result = .ok o ∧ Tells entity artifact relative status o
  | .error e => attempt.result = .error e

/-- A file is written and recorded, or the disk refuses to write it. -/
theorem ends_place (hsafely : w.safely = true) (entity artifact : String) (existed : Bool)
    (text : String) :
    Ends (w.place entity artifact relative existed text) s
      (fun o t ↦ Tells entity artifact relative (if existed then .replaced else .created) o ∧
        (DiskOp.writeFile (w.root ++ relative) (Text.encode text) w.safely).run.run s.disk =
          (.ok (), t.disk) ∧ t.asked = s.asked)
      fun e t ↦ ∃ fault, e = .disk fault ∧
        (DiskOp.writeFile (w.root ++ relative) (Text.encode text) w.safely).run.run s.disk =
          (.error fault, t.disk) ∧ t.asked = s.asked := by
  rw [place, ends_bind, store, ends_bind, Run.ends_onDisk]
  have hclean : Ends (DiskOp.writeFile (w.root ++ relative) (Text.encode text) true) s.disk
      (fun _ _ ↦ Disk.pathFault? (w.root ++ relative) = none) fun _ _ ↦ True :=
    DiskOp.pathFault?_of_writeFile
  rw [← hsafely] at hclean
  rcases run_ok_or_error (DiskOp.writeFile (w.root ++ relative) (Text.encode text) w.safely) s.disk
    with ⟨⟨⟩, d', hrun⟩ | ⟨e, d', hrun⟩
  · have habsolute : d'.absoluteOf (w.root ++ relative) =
        .ok (Disk.absolute (d'.resolve (w.root ++ relative))) := by
      rw [Disk.absoluteOf, (ends_of_run_ok hrun).1 hclean]
      rfl
    rw [ends_of_run_ok hrun, ends_bind, Run.ends_query_of_ok habsolute, ends_pure, ends_bind,
      Run.ends_say, ends_pure]
    exact ⟨⟨rfl, rfl, rfl, rfl⟩, hrun, rfl⟩
  · rw [ends_of_run_error hrun]
    exact ⟨e, rfl, hrun, rfl⟩

/-- What follows once it is clear that an artifact is written. -/
def attemptWrite (w : Writer) (entity artifact : String) (relative : Path) (content : Run Rendering)
    (there : Bool) : Run Attempt := do
  match ← Run.attempt (fun _ ↦ true) content with
  | .error e => return ⟨none, .error e⟩
  | .ok rendering =>
    return ⟨some rendering, ← Run.attempt (fun _ ↦ true)
      (w.place entity artifact relative there rendering.text)⟩

theorem ends_write {content : Run Rendering} (hsafely : w.safely = true) (hcontent : content.Reads)
    (entity artifact : String) :
    Ends (w.write entity artifact relative content) s
      (fun attempt t ↦ ∃ result, Takes w content relative s.disk s.asked result t.disk ∧
        t.asked = s.asked ++ w.asks s.disk relative ∧ Yields entity artifact relative attempt result)
      fun _ _ ↦ False := by
  have hwrite (there : Bool) (t : Scene) (hdisk : t.disk = s.disk)
      (hasked : t.asked = s.asked ++ w.asks s.disk relative)
      (hthere : s.disk.isThere (w.root ++ relative) = .ok there)
      (hpermits : there = true → w.permits s.asked relative = true) :
      Ends (w.attemptWrite entity artifact relative content there) t
        (fun attempt t ↦ ∃ result, Takes w content relative s.disk s.asked result t.disk ∧
          t.asked = s.asked ++ w.asks s.disk relative ∧
            Yields entity artifact relative attempt result) fun _ _ ↦ False := by
    rw [attemptWrite, ends_bind, Run.ends_attempt]
    refine hcontent.ends (fun rendering log hresult ↦ ?_) fun e log hresult ↦ ⟨fun _ ↦ ?_, by simp⟩
    · rw [hdisk] at hresult ⊢
      rw [ends_bind, Run.ends_attempt]
      refine (ends_place hsafely entity artifact there rendering.text).mono ?_ ?_
      · rintro o u ⟨htells, hrun, hu⟩
        exact (ends_pure _).2 ⟨_, .placed hthere hpermits hresult hrun, hu.trans hasked, o, rfl, htells⟩
      · rintro _ u ⟨fault, rfl, hrun, hu⟩
        exact ⟨fun _ ↦ (ends_pure _).2
          ⟨.error (.disk fault), .refused hthere hpermits hresult hrun, hu.trans hasked, rfl⟩, by simp⟩
    · rw [hdisk] at hresult
      refine (ends_pure _).2 ⟨.error e, ?_, hasked, rfl⟩
      rw [show ({ t with log := log } : Scene).disk = s.disk from hdisk]
      exact .unrendered hthere hpermits hresult
  rw [write, ends_bind, Run.ends_attempt, decide, ends_bind]
  rcases hthere : s.disk.isThere (w.root ++ relative) with e | ⟨⟩ | ⟨⟩
  · have hasks : w.asks s.disk relative = [] := by rw [asks, hthere]
    rw [Run.ends_query_of_error hthere]
    refine ⟨fun _ ↦ ?_, by simp⟩
    rw [ends_pure, hasks]
    exact ⟨.error (.disk e), .unanswered hthere, by simp, rfl⟩
  · have hasks : w.asks s.disk relative = [] := by rw [asks, hthere]
    rw [Run.ends_query_of_ok hthere, ends_pure]
    exact hwrite false s rfl (by simp [hasks]) hthere (by simp)
  · have hasks : w.asks s.disk relative = w.questions relative := by rw [asks, hthere]
    rw [Run.ends_query_of_ok hthere]
    simp only [ends_bind, ends_mayReplace]
    rcases hpermits : w.permits s.asked relative with - | -
    · simp only [ends_bind, Run.ends_say, ends_pure]
      exact ⟨_, .kept hthere hpermits, by rw [hasks], _, rfl, rfl, rfl, rfl, rfl⟩
    · simp only [ends_pure]
      exact hwrite true _ rfl (by rw [hasks]) hthere fun _ ↦ hpermits

end Writer

/-! ## Tasks -/

theorem Artifact.reads_render (stubs : StubSource) (c : Configuration) (related : List String)
    (a : Artifact) : Run.Reads (a.render stubs c related) := by
  cases a with
  | migration =>
    refine Run.reads_bind (Run.reads_attempt _ (stubs.reads_find _)) fun found ↦ ?_
    cases found with
    | ok template => exact Run.reads_pure _
    | error e => exact Run.reads_bind (Run.reads_say _) fun _ ↦ Run.reads_pure _
  | _ => exact Run.reads_bind (Run.reads_bind (stubs.reads_find _) fun _ ↦ Run.reads_pure _) fun _ ↦
      Run.reads_pure _

/-- An artifact that is to be generated. -/
structure Task where
  config : Configuration
  artifact : Artifact
  /-- The entities that nested requests lead to. -/
  related : List String
  /-- When its entity counts as generated. -/
  moment : Moment

namespace Task

/-- The path of the artifact on a disk. -/
def pathOn (x : Task) (root : Path) (d : Disk) : Except DiskError Path :=
  match x.artifact.fixedPath? x.config with
  | some p => .ok p
  | none => Migration.path d root x.config.table x.moment

def content (x : Task) (stubs : StubSource) : Run Rendering :=
  x.artifact.render stubs x.config x.related

end Task

/-- The turn of an artifact in a run, from what was worked out to what became of it. -/
structure Turn (g : Generator) where
  task : Task
  path : Path
  /-- The disk when the turn came. -/
  before : Disk
  /-- The questions that had been asked by then. -/
  asked : List String
  result : Except Failure ArtifactStatus
  /-- The disk when the turn was over. -/
  after : Disk
  located : task.pathOn g.root before = .ok path
  takes : g.writer.Takes (task.content g.stubs) path before asked result after

namespace Turn

variable {g : Generator}

/-- The questions that are asked in the turn. -/
def asks (x : Turn g) : List String := g.writer.asks x.before x.path

/-- What the turn is to the run: failures of the disk and missing stubs count against the artifact,
any other failure ends the run. -/
def ending (x : Turn g) : Except Failure ArtifactStatus :=
  match x.result with
  | .ok status => .ok status
  | .error e => if e.isDiskFailure then .ok .failed else .error e

/-- The outcome reports the turn. -/
def Tells (x : Turn g) (o : Outcome) : Prop :=
  ∃ status, x.ending = .ok status ∧
    Writer.Tells x.task.config.studly x.task.artifact.name x.path status o

end Turn

/-! ## Reports -/

/-- A report has grown by the outcomes. -/
structure Report.Adds (os : List Outcome) (r r' : Report) : Prop where
  outcomes : r'.outcomes = r.outcomes ++ os
  generationErrors : r'.generationErrors = [] ↔
    r.generationErrors = [] ∧ ∀ o ∈ os, o.status ≠ .failed
  validationErrors : r'.validationErrors = r.validationErrors
  backupErrors : r'.backupErrors = r.backupErrors
  routes : r'.routes = r.routes
  backup : r'.backup = r.backup

theorem Report.Adds.refl (r : Report) : Adds [] r r where
  outcomes := by simp
  generationErrors := by simp
  validationErrors := rfl
  backupErrors := rfl
  routes := rfl
  backup := rfl

theorem Report.Adds.trans {os os' : List Outcome} {r r' r'' : Report} (h : Adds os r r')
    (h' : Adds os' r' r'') : Adds (os ++ os') r r'' where
  outcomes := by rw [h'.outcomes, h.outcomes, List.append_assoc]
  generationErrors := by
    rw [h'.generationErrors, h.generationErrors, List.forall_mem_append, and_assoc]
  validationErrors := h'.validationErrors.trans h.validationErrors
  backupErrors := h'.backupErrors.trans h.backupErrors
  routes := h'.routes.trans h.routes
  backup := h'.backup.trans h.backup

/-! ## Generating an artifact -/

namespace Generator

variable {g : Generator} {c : Configuration} {related : List String} {m : Moment} {a : Artifact}
  {r : Report} {written : WriteManifest} {s : Scene}

theorem adds_record (r : Report) (written : WriteManifest) (o : Outcome) (bare : Bool)
    (h : o.status ≠ .failed) : r.Adds [o] (record r written o bare).1 where
  outcomes := rfl
  generationErrors := by simp [record, Report.addWarnings, h]
  validationErrors := rfl
  backupErrors := rfl
  routes := rfl
  backup := rfl

theorem adds_record_failed (r : Report) (written : WriteManifest) (o : Outcome) (bare : Bool)
    (message : String) (h : o.status = .failed) :
    r.Adds [o] (record (r.addError message) written o bare).1 where
  outcomes := rfl
  generationErrors := by simp [record, Report.addWarnings, Report.addError, h]
  validationErrors := rfl
  backupErrors := rfl
  routes := rfl
  backup := rfl

variable (related) in
theorem ends_artifactPath {good : Path → Scene → Prop} {bad : Failure → Scene → Prop} :
    Ends (g.artifactPath c m a) s good bad ↔
      (∀ p, (⟨c, a, related, m⟩ : Task).pathOn g.root s.disk = .ok p → good p s) ∧
        ∀ e, (⟨c, a, related, m⟩ : Task).pathOn g.root s.disk = .error e → bad (.disk e) s := by
  rw [artifactPath]
  simp only [Task.pathOn]
  rcases a.fixedPath? c with - | p
  · exact Run.ends_query _
  · simp

/-- An artifact has its turn, and the report gets its outcome; a run ends at an artifact whose path
cannot be worked out, or at a failure that no artifact survives. -/
theorem ends_generateArtifact :
    Ends (g.generateArtifact c related m a r written) s
      (fun result t ↦ ∃ x : Turn g, x.task = ⟨c, a, related, m⟩ ∧ x.before = s.disk ∧
        x.asked = s.asked ∧ t.disk = x.after ∧ t.asked = x.asked ++ x.asks ∧
          ∃ o, x.Tells o ∧ r.Adds [o] result.1)
      fun e t ↦ (t = s ∧ ∃ fault, e = .disk fault ∧
          (⟨c, a, related, m⟩ : Task).pathOn g.root s.disk = .error fault) ∨
        ∃ x : Turn g, x.task = ⟨c, a, related, m⟩ ∧ x.before = s.disk ∧ x.asked = s.asked ∧
          t.disk = x.after ∧ t.asked = x.asked ++ x.asks ∧ x.ending = .error e := by
  rw [generateArtifact, ends_bind, ends_artifactPath related]
  refine ⟨fun p hp ↦ ?_, fun e he ↦ .inl ⟨rfl, e, rfl, he⟩⟩
  rw [ends_bind]
  refine (Writer.ends_write rfl (a.reads_render _ _ _) c.studly a.name).mono ?_ fun _ _ ↦ False.elim
  rintro attempt t ⟨result, htakes, hasked, hyields⟩
  let x : Turn g := ⟨⟨c, a, related, m⟩, p, s.disk, s.asked, result, t.disk, hp, htakes⟩
  cases result with
  | ok status =>
    obtain ⟨o, ho, htells⟩ := hyields
    rw [ho]
    refine (ends_pure _).2 ⟨x, rfl, rfl, rfl, rfl, hasked, o, ⟨status, rfl, htells⟩, ?_⟩
    exact adds_record _ _ _ _ (htells.status ▸ htakes.ne_failed)
  | error e =>
    have hresult : attempt.result = .error e := hyields
    rw [hresult]
    rcases he : e.isDiskFailure with - | -
    · simp only [he, Bool.not_false, if_true, ends_bind, ends_throw]
      exact .inr ⟨x, rfl, rfl, rfl, rfl, hasked, by simp [x, Turn.ending, he]⟩
    · simp only [he, Bool.not_true, Bool.false_eq_true, if_false, ends_bind, Run.ends_say, ends_pure]
      let o : Outcome := ⟨c.studly, a.name, p.toString, .failed, e.message, none⟩
      have htells : x.Tells o := ⟨.failed, by simp [x, Turn.ending, he], rfl, rfl, rfl, rfl⟩
      refine ⟨x, rfl, rfl, rfl, rfl, hasked, o, htells, ?_⟩
      exact adds_record_failed _ _ _ _ _ rfl

end Generator

end Scaffold
