import Scaffold.Command.Perform
import Scaffold.Proofs.Generation.Whole
import Scaffold.Proofs.Run.Reading
import Scaffold.Proofs.Schema.Reading

/-!
# Runs that stop early

A run stops before it writes anything if its schema cannot be loaded or is not valid, if its
entities cannot be worked out, or if its backup fails. Then it reports a failure and nothing else,
and outside the directory of the backups no file has changed. A run that is kept from its report has
not changed any file there either. The exit codes of the program for such a stop mean the same.
-/

namespace Scaffold

open Disk DiskOp

namespace Generator

variable {g : Generator} {raw : Value} {schema : Schema} {cs : List Configuration} {memory : Memory}
  {r : Report} {s t : Scene}

/-! ## What a run that stops leaves -/

/-- Nothing was asked, and outside the directory of the backups no file has changed. -/
structure Untouched (g : Generator) (s t : Scene) : Prop where
  asked : t.asked = s.asked
  frame : g.store.Frame s.disk t.disk

/-- The run has reported a failure before it wrote anything. -/
structure Aborted (g : Generator) (s : Scene) (r : Report) (t : Scene) : Prop extends
    Untouched g s t where
  isSuccess : r.isSuccess = false
  outcomes : r.outcomes = []
  routes : r.routes = []

theorem untouched_of_log (hwf : s.disk.WellFormed) (log : List LogLine) :
    g.Untouched s { s with log } := ⟨rfl, .refl hwf⟩

theorem Untouched.of_log {log : List LogLine} (h : g.Untouched { s with log } t) :
    g.Untouched s t := ⟨h.asked, h.frame⟩

theorem Aborted.of_log {log : List LogLine} (h : g.Aborted { s with log } r t) :
    g.Aborted s r t := ⟨h.toUntouched.of_log, h.isSuccess, h.outcomes, h.routes⟩

theorem isSuccess_eq_false
    (h : r.validationErrors ≠ [] ∨ r.generationErrors ≠ [] ∨ r.backupErrors ≠ []) :
    r.isSuccess = false := by
  rw [Report.isSuccess, Bool.eq_false_iff]
  intro hsuccess
  simp only [Bool.and_eq_true, List.isEmpty_iff] at hsuccess
  obtain ⟨⟨hvalidation, hgeneration⟩, hbackup⟩ := hsuccess
  rcases h with h | h | h
  exacts [h hvalidation, h hgeneration, h hbackup]

/-! ## What stops a run -/

/-- Nothing that a run over the raw value is for can be written: the value is not valid, its
entities cannot be worked out, or a backup is wanted and fails. -/
inductive Stops (g : Generator) (raw : Value) (s : Scene) : Prop
  | invalid {report : ValidationReport} (hexamine : Validation.examine raw = .ok report)
      (hinvalid : report.isValid = false)
  | unbuilt {schema : Schema} (haccepted : schema.Accepted raw)
      (hbuild : ¬Returns (Configuration.buildAll schema) Memory.empty)
  | backup {schema : Schema} {cs : List Configuration} {memory : Memory}
      (haccepted : schema.Accepted raw)
      (hbuilt : (Configuration.buildAll schema).run.run Memory.empty = (.ok cs, memory))
      (hbackup : g.settings.backup = true)
      (hfails : ∀ log, ¬Returns (g.store.create cs g.moment) { s with log })

theorem Stops.with_log (h : g.Stops raw s) (log : List LogLine) : g.Stops raw { s with log } := by
  cases h with
  | invalid hexamine hinvalid => exact .invalid hexamine hinvalid
  | unbuilt haccepted hbuild => exact .unbuilt haccepted hbuild
  | backup haccepted hbuilt hbackup hfails => exact .backup haccepted hbuilt hbackup hfails

/-- What keeps a run that stops from its report: nested requests without end, or a directory of
backups whose path has a NUL or too many directories that are missing. -/
inductive Obstacle (g : Generator) (raw : Value) (d : Disk) : Prop
  | endless {schema : Schema} (haccepted : schema.Accepted raw)
      (hbuild : ¬Returns (Configuration.buildAll schema) Memory.empty)
  | folder (hbackup : g.settings.backup = true) (hfolder : Clean g.store.folder →
      ¬d.missingFrom (d.start g.store.folder) g.store.folder.parts ≤ deepest)

/-- A run that reports an error of the validation or of the backup has not written anything. -/
theorem Reports.aborted (h : Reports g schema cs s r t)
    (herrors : r.validationErrors ≠ [] ∨ r.backupErrors ≠ []) : g.Aborted s r t := by
  cases h with
  | unready hbackup hnotReady houtcomes hroutes hasked hadds =>
    exact ⟨⟨hasked, hadds.frame⟩, isSuccess_eq_false (.inr (.inr hnotReady)), houtcomes, hroutes⟩
  | complete _ _ _ _ _ _ hvalidation hready =>
    rcases herrors with hne | hne
    · exact absurd hvalidation hne
    · exact absurd hready hne

/-- If its backup fails a run reports that, or is kept from it. -/
theorem ends_process_of_fails (hwf : s.disk.WellFormed)
    (hbuilt : Configuration.Built schema cs memory) (hfresh : r.Fresh)
    (hbackup : g.settings.backup = true) (hfails : ¬Returns (g.store.create cs g.moment) s) :
    Ends (g.process schema cs { memory with log := [] } r) s (g.Aborted s) fun _ t ↦
      g.Untouched s t ∧ (Clean g.store.folder →
        ¬s.disk.missingFrom (s.disk.start g.store.folder) g.store.folder.parts ≤ deepest) := by
  rw [process, hbackup]
  simp only [if_true]
  rw [ends_bind]
  refine (ends_backUp hwf hbuilt.words hbackup hfresh).mono ?_ ?_
  · rintro ⟨r', ready⟩ t
      ⟨hasked, ⟨-, -, -, hreturns⟩ | ⟨rfl, hnotReady, houtcomes, hroutes, hadds⟩⟩
    · exact absurd hreturns hfails
    · simpa using Aborted.mk ⟨hasked, hadds.frame⟩ (isSuccess_eq_false (.inr (.inr hnotReady)))
        houtcomes hroutes
  · rintro e t ⟨hasked, hadds, hfolder⟩
    exact ⟨⟨hasked, hadds.frame⟩, hfolder⟩

/-- A run over an invalid value reports that and nothing else. -/
theorem ends_run_of_invalid {report : ValidationReport}
    (hexamine : Validation.examine raw = .ok report) (hinvalid : report.isValid = false)
    (hwf : s.disk.WellFormed) (hfresh : r.Fresh) :
    Ends (g.run raw r) s (g.Aborted s) fun _ _ ↦ False := by
  have herrors : report.errors ≠ [] := by
    rwa [ValidationReport.isValid, List.isEmpty_eq_false_iff] at hinvalid
  rw [run, ends_bind, validate, hexamine]
  simp only [hinvalid, ends_bind, Run.ends_sayAll, Bool.not_false, if_true, Run.ends_lift,
    Except.ok.injEq, forall_eq', ends_pure, reduceCtorEq, false_imp_iff, implies_true, and_true]
  exact ⟨untouched_of_log hwf _, isSuccess_eq_false (.inl (by simp [Report.addStep, herrors])),
    hfresh.outcomes, hfresh.routes⟩

/-- A run that is stopped, or that reports an error of the validation or of the backup, has not
written anything. -/
theorem ends_run_untouched (hwf : s.disk.WellFormed) (hroot : g.routes.root.Spelled)
    (hfresh : r.Fresh) :
    Ends (g.run raw r) s
      (fun r' t ↦ g.Stops raw s ∨ r'.validationErrors ≠ [] ∨ r'.backupErrors ≠ [] →
        g.Aborted s r' t)
      fun _ t ↦ g.Stops raw s → g.Untouched s t ∧ g.Obstacle raw s.disk := by
  rcases hexamine : Validation.examine raw with e | report
  · -- Without a text for each key the value is neither valid nor invalid.
    rw [run, ends_bind, validate, hexamine, ends_bind, Run.ends_lift]
    refine ⟨fun _ hok ↦ (by cases hok), fun e' _ hstops ↦ ?_⟩
    exfalso
    cases hstops with
    | invalid hexamine' => cases hexamine.symm.trans hexamine'
    | unbuilt haccepted => cases hexamine.symm.trans haccepted.examine
    | backup haccepted => cases hexamine.symm.trans haccepted.examine
  rcases hvalid : report.isValid with - | -
  · exact (ends_run_of_invalid hexamine hvalid hwf hfresh).mono (fun _ _ h _ ↦ h)
      fun _ _ ↦ False.elim
  obtain rfl := Validation.eq_validate_of_examine hexamine
  obtain ⟨schema, haccepted⟩ := Validation.exists_accepted hvalid
  refine ends_run haccepted hfresh (fun cs memory r' log hrun hfresh' ↦ ?_) fun e log hno _ ↦
    ⟨untouched_of_log hwf log, .endless haccepted hno⟩
  have hbuilt := Configuration.built haccepted hrun
  by_cases hfails : g.settings.backup = true ∧ ¬Returns (g.store.create cs g.moment) { s with log }
  · refine (ends_process_of_fails (s := { s with log }) hwf hbuilt hfresh' hfails.1 hfails.2).mono
      (fun r'' t haborted _ ↦ haborted.of_log) ?_
    rintro e t ⟨huntouched, hfolder⟩ -
    exact ⟨huntouched.of_log, .folder hfails.1 hfolder⟩
  · have hgoes : ¬g.Stops raw s := by
      intro hstops
      cases hstops with
      | invalid hexamine' hinvalid =>
        obtain rfl := Validation.eq_validate_of_examine hexamine'
        rw [hvalid] at hinvalid
        cases hinvalid
      | unbuilt haccepted' hno =>
        obtain rfl := haccepted.unique haccepted'
        exact hno ⟨cs, memory, hrun⟩
      | backup haccepted' hrun' hbackup hno =>
        obtain rfl := haccepted.unique haccepted'
        obtain rfl := Except.ok.inj (congrArg Prod.fst (hrun.symm.trans hrun'))
        exact hfails ⟨hbackup, hno log⟩
    exact (ends_process (s := { s with log }) hwf hroot hbuilt hfresh').mono
      (fun r'' t hreports herrors ↦ (hreports.aborted (herrors.resolve_left hgoes)).of_log)
      fun _ _ _ h ↦ absurd h hgoes

/-! ## Schema files -/

/-- The schema file of a run that may name one. -/
def fileOf (g : Generator) (file : Option Path) : Path := file.getD g.settings.schemaFile

/-- Nothing that a run over a schema file is for can be written: the file cannot be loaded, or a run
over what it holds is stopped. -/
inductive StopsAt (g : Generator) (file : Option Path) (s : Scene) : Prop
  | unloaded {e : Failure} (hload : (Run.loadSchema (g.fileOf file)).resultOn s.disk = .error e)
  | loaded {entries : List (Value × Value)}
      (hload : (Run.loadSchema (g.fileOf file)).resultOn s.disk = .ok entries)
      (hstops : g.Stops (.map entries) s)

/-- What keeps such a run from its report: the file cannot be loaded because of something other than
the user's input, or an obstacle that what it holds meets. -/
inductive ObstacleAt (g : Generator) (file : Option Path) (d : Disk) : Prop
  | unloaded {e : Failure} (hload : (Run.loadSchema (g.fileOf file)).resultOn d = .error e)
      (hlevel : e.isInputFailure = false)
  | loaded {entries : List (Value × Value)}
      (hload : (Run.loadSchema (g.fileOf file)).resultOn d = .ok entries)
      (hobstacle : g.Obstacle (.map entries) d)

theorem ends_generateFile_untouched (hwf : s.disk.WellFormed) (hroot : g.routes.root.Spelled)
    (file : Option Path) :
    Ends (g.generateFile file) s
      (fun r t ↦ g.StopsAt file s ∨ r.validationErrors ≠ [] ∨ r.backupErrors ≠ [] →
        g.Aborted s r t)
      fun _ t ↦ g.StopsAt file s →
        g.Untouched s t ∧ (pathFault? g.root = some .nul ∨ g.ObstacleAt file s.disk) := by
  rw [generateFile, ends_bind]
  refine ends_absoluteRoot (fun root _ ↦ ?_) fun e hnul _ ↦ ⟨⟨rfl, .refl hwf⟩, .inl hnul⟩
  rw [ends_bind, Run.ends_attempt]
  refine (Run.reads_loadSchema _).ends (fun entries log hload ↦ ?_) fun e log hload ↦ ?_
  · have hstops (log' : List LogLine) (h : g.StopsAt file s) :
        g.Stops (.map entries) { s with log := log' } := by
      cases h with
      | unloaded hload' => cases hload.symm.trans hload'
      | loaded hload' hstops =>
        obtain rfl := Except.ok.inj (hload.symm.trans hload')
        exact hstops.with_log log'
    simp only [ends_bind, Run.ends_say]
    refine (ends_run_untouched (s := { s with log := log ++ _ }) hwf hroot
      ⟨rfl, rfl, rfl, rfl, rfl⟩).mono ?_ ?_
    · exact fun r t h herrors ↦ (h (herrors.imp_left (hstops _))).of_log
    · intro e t h hstop
      obtain ⟨huntouched, hobstacle⟩ := h (hstops _ hstop)
      exact ⟨huntouched.of_log, .inr (.loaded hload hobstacle)⟩
  · refine ⟨fun _ ↦ ?_, fun hlevel _ ↦
      ⟨untouched_of_log hwf log, .inr (.unloaded hload hlevel)⟩⟩
    simp only [ends_bind, Run.ends_say, ends_pure]
    exact fun _ ↦ ⟨untouched_of_log hwf _, isSuccess_eq_false (.inr (.inl (by
      simp [Report.addStep, Report.addError]))), rfl, rfl⟩

end Generator

/-! ## Exit codes -/

namespace Command

variable {s : Scene} {answers : Answers} {moment : Moment} {settings : Settings} {yes : Bool}

theorem ends_refuse (code : ℕ) (message : String) {good : CommandResult → Scene → Prop}
    {bad : Failure → Scene → Prop} :
    Ends (refuse code message) s good bad ↔
      good ⟨code, "", ""⟩ { s with log := s.log ++ [⟨.error, "modulegen", message⟩] } := by
  rw [refuse, ends_bind, Run.ends_say, finish, ends_pure]

theorem codeOf_ne_inputError (r : Report) : codeOf r ≠ inputError := by
  rw [codeOf]
  split
  · decide
  · split
    · decide
    · split <;> decide

/-- The codes for a failed validation and a failed backup tell of one. -/
theorem errors_of_codeOf {r : Report} (h : codeOf r = validationError ∨ codeOf r = backupError) :
    r.validationErrors ≠ [] ∨ r.backupErrors ≠ [] := by
  rw [codeOf] at h
  split at h
  · simp [success, validationError, backupError] at h
  · split at h
    · next hvalidation => exact .inl (by simpa using hvalidation)
    · split at h
      · next hbackup => exact .inr (by simpa using hbackup)
      · simp [generationError, validationError, backupError] at h

/-- A code means for the disk what it says. -/
def Means (settings : Settings) (s : Scene) (result : CommandResult) (t : Scene) : Prop :=
  result.code ≠ inputError ∧ (result.code = validationError ∨ result.code = backupError →
    (BackupStore.ofSettings settings).Frame s.disk t.disk)

theorem ends_generateNow (hwf : s.disk.WellFormed) (schema : Path) :
    Ends (generateNow answers moment settings schema) s (Means settings s) fun _ _ ↦ True := by
  rw [generateNow]
  simp only [ends_bind, tell, Run.ends_say]
  refine Generator.ends_absoluteRoot (fun root _ ↦ ?_) fun _ _ ↦ trivial
  have hroot : (Generator.ofSettings settings
      (if settings.policy == .prompt then some answers else none) moment).routes.root.Spelled :=
    Path.spelled_ofString _
  have hrun (log : List LogLine) := Generator.ends_generateFile_untouched (s := { s with log }) hwf
    hroot (some schema)
  refine (hrun _).mono (fun r t h ↦ ?_) fun _ _ _ ↦ trivial
  exact (ends_pure _).2 ⟨codeOf_ne_inputError r, fun hcode ↦
    (h (.inr (errors_of_codeOf hcode))).frame⟩

theorem ends_runGenerate (hwf : s.disk.WellFormed) (schema : Path) :
    Ends (runGenerate answers moment settings yes schema) s (Means settings s) fun _ _ ↦ True := by
  have hagreed (agreed : Bool) (asked : List String) : Ends
      (if !agreed then finish success "Aborted.\n"
        else generateNow answers moment settings schema)
      { s with asked } (Means settings s) fun _ _ ↦ True := by
    cases agreed with
    | true => exact ends_generateNow (s := { s with asked }) hwf schema
    | false =>
      refine (ends_pure _).2 ⟨by decide, fun hcode ↦ ?_⟩
      simp [success, validationError, backupError] at hcode
  rw [runGenerate]
  split
  · rw [ends_bind, Run.ends_confirm]
    exact hagreed _ _
  · rw [ends_bind, ends_pure]
    exact hagreed true s.asked

/-- What the exit codes of a generation that stops early mean: nothing has changed without usable
settings and a schema file, and after a failed validation or backup nothing outside the directory of
the backups has. -/
theorem ends_generate (project : ProjectChoice) (stubs : Option String)
    (force prompt yes skipBackup web : Bool) (answers : Answers) (moment : Moment)
    (hwf : s.disk.WellFormed) :
    let c := generate project stubs force prompt yes skipBackup web
    Ends (c.run answers moment) s
      (fun result t ↦ (result.code = inputError → t.disk = s.disk) ∧
        (result.code = validationError ∨ result.code = backupError → ∃ settings,
          (Run.loadSettings (path? project.config) c.changes).resultOn s.disk = .ok settings ∧
            (BackupStore.ofSettings settings).Frame s.disk t.disk))
      fun _ _ ↦ True := by
  intro c
  rw [run, withSettings, ends_bind, Run.ends_attempt]
  refine (Run.reads_loadSettings _ _).ends (fun settings log hload ↦ ?_) fun e log _ ↦ ?_
  · simp only [withSchema]
    rw [ends_bind, Run.ends_query]
    refine ⟨fun isFile _ ↦ ?_, fun _ _ ↦ trivial⟩
    cases isFile with
    | false =>
      exact (ends_refuse _ _).2
        ⟨fun _ ↦ rfl, by simp [inputError, validationError, backupError]⟩
    | true =>
      refine (ends_runGenerate (s := { s with log }) hwf _).mono ?_ fun _ _ ↦ id
      rintro result t ⟨hcode, hframe⟩
      exact ⟨fun h ↦ absurd h hcode, fun h ↦ ⟨settings, hload, hframe h⟩⟩
  · refine ⟨fun _ ↦ ?_, fun _ ↦ trivial⟩
    exact (ends_refuse _ _).2 ⟨fun _ ↦ rfl, by simp [inputError, validationError, backupError]⟩

end Command

/-- What the exit code of an invocation that generates says about the disk. -/
theorem Invocation.disk_of_code {i : Invocation} {project : ProjectChoice} {stubs : Option String}
    {force prompt yes skipBackup web : Bool}
    (hcommand : i.command = .generate project stubs force prompt yes skipBackup web)
    (input : String) (moment : Moment) (time : String) {d : Disk} (hwf : d.WellFormed) :
    ((i.run input moment time d).1.code = .ok Command.inputError →
      (i.run input moment time d).2 = d) ∧
    ((i.run input moment time d).1.code = .ok Command.validationError ∨
        (i.run input moment time d).1.code = .ok Command.backupError → ∃ settings,
      (Run.loadSettings (Command.path? project.config) i.command.changes).resultOn d = .ok settings ∧
        (BackupStore.ofSettings settings).Frame d (i.run input moment time d).2) := by
  have hends := Command.ends_generate (s := ⟨d, [], []⟩) project stubs force prompt yes skipBackup
    web (Command.answersOf input) moment hwf
  simp only [← hcommand] at hends
  rw [run]
  rcases run_ok_or_error (i.command.run (Command.answersOf input) moment) ⟨d, [], []⟩ with
    ⟨result, t, hrun⟩ | ⟨e, t, hrun⟩
  · rw [hrun]
    simpa using (ends_of_run_ok hrun).1 hends
  · rw [hrun]
    simp

namespace Generator

/-- A run that is stopped leaves every file outside the directory of the backups as it was. It
reports that it failed, and neither outcomes nor routes, unless an obstacle keeps it from its report.
So it is with a run over a schema file, and the program tells by its exit code. -/
theorem untouched_of_stops {s : Scene} (hwf : s.disk.WellFormed) :
    (∀ (g : Generator) (raw : Value), g.routes.root.Spelled → g.Stops raw s →
      Ends (g.generate raw) s (g.Aborted s) fun _ t ↦
        g.Untouched s t ∧ (pathFault? g.root = some .nul ∨ g.Obstacle raw s.disk)) ∧
    (∀ (g : Generator) (file : Option Path), g.routes.root.Spelled → g.StopsAt file s →
      Ends (g.generateFile file) s (g.Aborted s) fun _ t ↦
        g.Untouched s t ∧ (pathFault? g.root = some .nul ∨ g.ObstacleAt file s.disk)) ∧
    ∀ (i : Invocation) (project : ProjectChoice) (stubs : Option String)
      (force prompt yes skipBackup web : Bool) (input : String) (moment : Moment) (time : String),
      i.command = .generate project stubs force prompt yes skipBackup web →
        ((i.run input moment time s.disk).1.code = .ok Command.inputError →
          (i.run input moment time s.disk).2 = s.disk) ∧
        ((i.run input moment time s.disk).1.code = .ok Command.validationError ∨
            (i.run input moment time s.disk).1.code = .ok Command.backupError → ∃ settings,
          (Run.loadSettings (Command.path? project.config) i.command.changes).resultOn s.disk =
              .ok settings ∧
            (BackupStore.ofSettings settings).Frame s.disk (i.run input moment time s.disk).2) := by
  refine ⟨fun g raw hroot hstops ↦ ?_, fun g file hroot hstops ↦ ?_,
    fun i project stubs force prompt yes skipBackup web input moment time hcommand ↦
      i.disk_of_code hcommand input moment time hwf⟩
  · rw [generate, ends_bind]
    refine ends_absoluteRoot (fun root _ ↦ ?_) fun e hnul ↦ ⟨⟨rfl, .refl hwf⟩, .inl hnul⟩
    refine (ends_run_untouched hwf hroot (Report.fresh_empty _ _)).mono
      (fun r t h ↦ h (.inl hstops)) fun e t h ↦ ?_
    obtain ⟨huntouched, hobstacle⟩ := h hstops
    exact ⟨huntouched, .inr hobstacle⟩
  · exact (ends_generateFile_untouched hwf hroot file).mono (fun r t h ↦ h (.inl hstops))
      fun e t h ↦ h hstops

end Generator

namespace SmallProject

def generator : Generator := .ofSettings (settings .skip) none moment

/-- The command `generate --yes`. -/
def invocation : Invocation :=
  ⟨0, false, .generate ⟨none, none, none⟩ none false false true false false⟩

/-- The project has no schema file. -/
theorem loadSchema_isMissing :
    (match (Run.loadSchema (generator.fileOf none)).resultOn disk with
      | .error e => e.isInputFailure
      | .ok _ => false) = true := by decide

theorem code_run : (invocation.run "" moment "" disk).1.code = .ok Command.inputError := by rfl

/-- Runs over an empty schema, over a schema file that is missing, and by the program. -/
theorem generator_untouched :
    Ends (generator.generate (.map [])) scene (generator.Aborted scene) (fun _ _ ↦ False) ∧
      Ends (generator.generateFile none) scene (generator.Aborted scene) (fun _ _ ↦ False) ∧
      (invocation.run "" moment "" disk).2 = disk := by
  obtain ⟨hgenerate, hfile, hprogram⟩ :=
    Generator.untouched_of_stops (s := scene) (by decide)
  have hroot : generator.routes.root.Spelled := Path.spelled_ofString _
  have hnul : pathFault? generator.root ≠ some .nul := by decide
  have hmissing := loadSchema_isMissing
  refine ⟨?_, ?_, (hprogram invocation _ _ _ _ _ _ _ _ _ _ rfl).1 code_run⟩
  · refine (hgenerate generator (.map []) hroot (.invalid rfl (by decide))).mono
      (fun _ _ ↦ id) ?_
    rintro e t ⟨-, hroot | hobstacle⟩
    · exact hnul hroot
    · cases hobstacle with
      | endless haccepted => exact absurd haccepted.isValid (by decide)
      | folder hbackup => cases hbackup
  · rcases hload : (Run.loadSchema (generator.fileOf none)).resultOn disk with e | entries
    · rw [hload] at hmissing
      refine (hfile generator none hroot (.unloaded hload)).mono (fun _ _ ↦ id) ?_
      rintro e' t ⟨-, hroot | hobstacle⟩
      · exact hnul hroot
      · cases hobstacle with
        | unloaded hload' hlevel =>
          obtain rfl := Except.error.inj (hload.symm.trans hload')
          exact absurd hmissing (by simp [hlevel])
        | loaded hload' => cases hload.symm.trans hload'
    · rw [hload] at hmissing
      cases hmissing

end SmallProject

end Scaffold
