import Scaffold.Proofs.Backup.Creation
import Scaffold.Proofs.Generation.History
import Scaffold.Proofs.Generation.Routes

/-!
# Whole runs

A run over an accepted schema whose entities can be worked out makes its backup, has all its turns
and registers its routes. `Reports` says how it comes to its report, `Breaks` how it can break off
without one.
-/

namespace Scaffold

open Disk DiskOp

/-! ## Turns in a row -/

variable {g : Generator}

/-- The paths of a run over entities with words as names are targets, and its turns change the files
at these paths only. -/
theorem Leads.grows {xs : List (Turn g)} {d d' : Disk} {asked asked' : List String}
    (h : Leads g xs d asked d' asked') (hwf : d.WellFormed) (hroot : g.root.Spelled)
    (hwords : ∀ x ∈ xs, x.task.config.studly = "" ∨ IsWord x.task.config.studly) :
    Grows everywhere (fun l ↦ ∃ x ∈ xs, x.Writes ∧ l = x.place) d d' ∧
      ∀ x ∈ xs, x.before.WellFormed ∧ x.before.cwd = d.cwd ∧ x.path.IsTarget := by
  induction h with
  | stay => exact ⟨.refl hwf, by simp⟩
  | turn x hrest ih =>
    have hpath := Task.isTarget hwf (hwords x (by simp)) x.located
    obtain ⟨hgrows, -⟩ := x.grows hwf hroot hpath
    obtain ⟨hmore, hall⟩ := ih hgrows.wellFormed fun y hy ↦ hwords y (List.mem_cons_of_mem _ hy)
    refine ⟨(hgrows.mono (fun _ ↦ id) fun l hl ↦ ⟨x, List.mem_cons_self, hl⟩).trans
      (hmore.mono (fun _ ↦ id) fun l ⟨y, hy, hl⟩ ↦ ⟨y, List.mem_cons_of_mem _ hy, hl⟩), ?_⟩
    refine List.forall_mem_cons.2 ⟨⟨hwf, rfl, hpath⟩, fun y hy ↦ ?_⟩
    obtain ⟨hwf', hcwd, hpath'⟩ := hall y hy
    exact ⟨hwf', hcwd.trans hgrows.cwd, hpath'⟩

/-! ## What a run reports -/

/-- Nothing has been reported that counts as an error or comes after the backup. -/
structure Report.Fresh (r : Report) : Prop where
  validationErrors : r.validationErrors = []
  generationErrors : r.generationErrors = []
  backupErrors : r.backupErrors = []
  outcomes : r.outcomes = []
  routes : r.routes = []

theorem Report.fresh_empty (basePath schemaFile : String) : (empty basePath schemaFile).Fresh :=
  ⟨rfl, rfl, rfl, rfl, rfl⟩

namespace Generator

theorem spelled_root (g : Generator) : g.root.Spelled := Path.spelled_ofString _

/-- The backups of the project. -/
def store (g : Generator) : BackupStore :=
  { BackupStore.ofSettings g.settings with shared := RouteFile.relativePath g.routes.api }

theorem spelled_folder (g : Generator) : g.store.folder.Spelled :=
  g.spelled_root.append (Path.spelled_ofString _)

variable {raw : Value} {schema : Schema} {cs : List Configuration} {memory : Memory} {r : Report}
  {s : Scene}

/-! ## Before anything is written -/

/-- Only a NUL keeps the root from having an absolute path. -/
theorem ends_absoluteRoot {good : String → Scene → Prop} {bad : Failure → Scene → Prop}
    (hgood : ∀ root, pathFault? g.root ≠ some .nul → good root s)
    (hbad : ∀ e, pathFault? g.root = some .nul → bad e s) : Ends g.absoluteRoot s good bad := by
  rw [absoluteRoot, ends_bind, Run.ends_query]
  refine ⟨fun p hp ↦ (ends_pure _).2 (hgood _ fun hnul ↦ ?_), fun e he ↦ hbad _ ?_⟩
  · simp [absoluteOf, hnul] at hp
  · rw [absoluteOf] at he
    split at he
    · next hnul => simpa using hnul
    · cases he

/-- An accepted schema passes, and nothing but the log changes. -/
theorem ends_validate (haccepted : schema.Accepted raw)
    {good : Report × Option Schema → Scene → Prop} {bad : Failure → Scene → Prop}
    (hgood : ∀ r' log, (r.Fresh → r'.Fresh) → good (r', some schema) { s with log }) :
    Ends (validate raw r) s good bad := by
  obtain ⟨entries, rfl, hread⟩ := haccepted.read
  have hvalid := haccepted.isValid
  have hno : (Validation.validate (.map entries)).errors = [] := List.isEmpty_iff.1 hvalid
  rw [validate, haccepted.examine]
  simp only [hvalid, hread, hno, ends_bind, Run.ends_sayAll, Bool.not_true, Bool.false_eq_true,
    if_false, List.map_nil, Run.ends_lift, Except.ok.injEq, forall_eq', ends_pure, reduceCtorEq,
    false_imp_iff, implies_true, and_true]
  refine hgood _ _ fun h ↦ ⟨?_, h.generationErrors, h.backupErrors, h.outcomes, h.routes⟩
  simpa [Report.addStep] using h.validationErrors

/-- The entities are worked out, or the run ends there. -/
theorem ends_configure (haccepted : schema.Accepted raw)
    {good : Report × Option (List Configuration × Memory) → Scene → Prop}
    {bad : Failure → Scene → Prop}
    (hgood : ∀ cs memory r' log, (Configuration.buildAll schema).run.run Memory.empty =
      (.ok cs, memory) → (r.Fresh → r'.Fresh) →
        good (r', some (cs, { memory with log := [] })) { s with log })
    (hbad : ∀ e log, ¬Returns (Configuration.buildAll schema) Memory.empty → bad e { s with log }) :
    Ends (configure schema r) s good bad := by
  rw [configure]
  rcases hbuilt : (Configuration.buildAll schema).run.run Memory.empty with ⟨e | cs, memory⟩
  · have hends := (ends_of_run_error hbuilt).1
      (Configuration.ends_buildAll haccepted (Memory.sound_empty schema))
    obtain rfl := hends
    have hno : ¬Returns (Configuration.buildAll schema) Memory.empty := by
      rintro ⟨cs, t, h⟩
      rw [hbuilt] at h
      cases h
    simp only [ends_bind, Run.ends_sayAll]
    exact (ends_throw _).2 (hbad _ _ hno)
  · simp only [ends_bind, Run.ends_sayAll, ends_pure]
    exact hgood cs memory _ _ hbuilt fun h ↦
      ⟨h.validationErrors, h.generationErrors, h.backupErrors, h.outcomes, h.routes⟩

/-- What a run does once its entities are worked out. -/
def process (g : Generator) (schema : Schema) (cs : List Configuration) (memory : Memory)
    (r : Report) : Run Report := do
  let (r, ready) ← if g.settings.backup then g.backUp cs r else pure (r, true)
  if !ready then return r
  g.registerRoutes cs (← g.generateAll schema cs memory r)

/-- A run over an accepted schema goes on from its entities, or ends before anything is written. -/
theorem ends_run (haccepted : schema.Accepted raw) (hfresh : r.Fresh)
    {good : Report → Scene → Prop} {bad : Failure → Scene → Prop}
    (hprocess : ∀ cs memory r log, (Configuration.buildAll schema).run.run Memory.empty =
      (.ok cs, memory) → r.Fresh →
        Ends (g.process schema cs { memory with log := [] } r) { s with log } good bad)
    (hbad : ∀ e log, ¬Returns (Configuration.buildAll schema) Memory.empty → bad e { s with log }) :
    Ends (g.run raw r) s good bad := by
  rw [run, ends_bind]
  refine ends_validate haccepted fun r' log hr' ↦ ?_
  rw [ends_bind]
  exact ends_configure haccepted (fun cs memory r'' log' hbuilt hr'' ↦
    hprocess cs memory r'' log' hbuilt (hr'' (hr' hfresh))) hbad

/-- Such a run from a raw value may end even earlier, at the path of its root. -/
theorem ends_generate (haccepted : schema.Accepted raw) {good : Report → Scene → Prop}
    {bad : Failure → Scene → Prop}
    (hprocess : ∀ cs memory r log, (Configuration.buildAll schema).run.run Memory.empty =
      (.ok cs, memory) → r.Fresh → pathFault? g.root ≠ some .nul →
        Ends (g.process schema cs { memory with log := [] } r) { s with log } good bad)
    (hbad : ∀ e log, (pathFault? g.root = some .nul ∨
      ¬Returns (Configuration.buildAll schema) Memory.empty) → bad e { s with log }) :
    Ends (g.generate raw) s good bad := by
  rw [generate, ends_bind]
  refine ends_absoluteRoot (fun _ hnul ↦ ?_) fun e hnul ↦ hbad e s.log (.inl hnul)
  exact ends_run haccepted (Report.fresh_empty _ _)
    (fun cs memory r log hbuilt hfresh ↦ hprocess cs memory r log hbuilt hfresh hnul)
    fun e log hno ↦ hbad e log (.inr hno)

/-! ## The backup of a run -/

/-- The first disk has been backed up, if a backup is wanted, which leaves the second one. -/
inductive BacksUp (g : Generator) (cs : List Configuration) (r : Report) (d : Disk) : Disk → Prop
  | off (hbackup : g.settings.backup = false) : BacksUp g cs r d d
  | made {m : BackupManifest} {session : Path} {d₀ d₁ : Disk} (hbackup : g.settings.backup = true)
      (hreport : r.backup = some m) (hopens : Changes (BackupStore.Named session.parts) nowhere d d₀)
      (hmade : BackupStore.Made g.store cs session m d₀ d₁)
      (hfree : d.node? (d.resolve session) = none) : BacksUp g cs r d d₁

theorem BacksUp.adds {d d' : Disk} (h : g.BacksUp cs r d d') (hwf : d.WellFormed) :
    g.store.Adds d d' := by
  cases h with
  | off => exact .refl hwf
  | made hbackup hreport hopens hmade => exact BackupStore.adds hmade.new hopens hmade.files

theorem BacksUp.frame {d d' : Disk} (h : g.BacksUp cs r d d') (hwf : d.WellFormed) :
    g.store.Frame d d' := (h.adds hwf).frame

theorem BacksUp.of_backup {d d' : Disk} {r' : Report} (h : g.BacksUp cs r d d')
    (hr : r'.backup = r.backup) : g.BacksUp cs r' d d' := by
  cases h with
  | off hbackup => exact .off hbackup
  | made hbackup hreport hopens hmade hfree =>
    exact .made hbackup (hr.trans hreport) hopens hmade hfree

/-- A backup is made, or its failure is reported, or it fails in a way that ends the run. -/
theorem ends_backUp (hwf : s.disk.WellFormed) (hwords : ∀ c ∈ cs, c.studly = "" ∨ IsWord c.studly)
    (hbackup : g.settings.backup = true) (hfresh : r.Fresh) :
    Ends (g.backUp cs r) s
      (fun x t ↦ t.asked = s.asked ∧
        (x.2 = true ∧ x.1.Fresh ∧ g.BacksUp cs x.1 s.disk t.disk ∧
            Returns (g.store.create cs g.moment) s ∨
          x.2 = false ∧ x.1.backupErrors ≠ [] ∧ x.1.outcomes = [] ∧ x.1.routes = [] ∧
            g.store.Adds s.disk t.disk))
      fun _ t ↦ t.asked = s.asked ∧ g.store.Adds s.disk t.disk ∧ (Clean g.store.folder →
        ¬s.disk.missingFrom (s.disk.start g.store.folder) g.store.folder.parts ≤ deepest) := by
  rw [backUp, ends_bind, Run.ends_attempt]
  refine ((BackupStore.ends_create hwf g.spelled_folder rfl hwords).and (ends_returns _ _)).mono
    ?_ ?_
  · rintro m t ⟨⟨hasked, session, d₀, hopening, hmade⟩, hreturns⟩
    exact (ends_pure _).2 ⟨hasked, .inl ⟨rfl, ⟨hfresh.validationErrors, hfresh.generationErrors,
      hfresh.backupErrors, hfresh.outcomes, hfresh.routes⟩,
      .made hbackup rfl hopening.changes hmade hopening.free, hreturns⟩⟩
  · rintro e t ⟨⟨hasked, hadds, hplain⟩, -⟩
    refine ⟨fun _ ↦ ?_, fun hfatal ↦ ⟨hasked, hadds, fun hclean hdeep ↦ ?_⟩⟩
    · simp only [ends_bind, Run.ends_say, ends_pure]
      exact ⟨hasked, .inr ⟨trivial, by simp [Report.addStep], hfresh.outcomes, hfresh.routes,
        hadds⟩⟩
    · rw [hplain hclean hdeep] at hfatal
      cases hfatal

/-! ## The whole run -/

/-- How a run comes to its report. -/
inductive Reports (g : Generator) (schema : Schema) (cs : List Configuration) (s : Scene)
    (r : Report) (t : Scene) : Prop
  /-- Without a backup nothing is done. -/
  | unready (hbackup : g.settings.backup = true) (herrors : r.backupErrors ≠ [])
      (houtcomes : r.outcomes = []) (hroutes : r.routes = []) (hasked : t.asked = s.asked)
      (hadds : g.store.Adds s.disk t.disk)
  | complete {d₁ d₂ : Disk} {xs : List (Turn g)} {os : List Outcome}
      {results : List (Option RouteResult)} (hbackup : g.BacksUp cs r s.disk d₁)
      (hplans : Plans g schema 0 cs (xs.map (·.task))) (hleads : Leads g xs d₁ s.asked d₂ t.asked)
      (htells : List.Forall₂ Turn.Tells xs os)
      (hroutes : Grows (g.routes.Leading d₂) (· = g.routes.place d₂) d₂ t.disk)
      (hresults : List.Forall₂ (fun c result ↦ ∀ x ∈ result, x.line = c.route g.routes.api ∧
        g.routes.Holds (c.route g.routes.api) t.disk) (routed cs) results)
      (hvalidation : r.validationErrors = []) (hready : r.backupErrors = [])
      (hheld : (∀ c ∈ routed cs, g.routes.Holds (c.route g.routes.api) d₂) → t.disk = d₂ ∧
        results = (routed cs).map fun c ↦
          some ⟨c.route g.routes.api, RouteFile.relativePath g.routes.api, false, false⟩)
      (houtcomes : r.outcomes = os) (hregistered : r.routes = results.reduceOption)
      (herrors : r.generationErrors = [] ↔ (∀ o ∈ os, o.status ≠ .failed) ∧ none ∉ results)

/-- How a run breaks off: at the backup, at an artifact, or at a route. -/
inductive Breaks (g : Generator) (schema : Schema) (cs : List Configuration) (s : Scene)
    (e : Failure) (t : Scene) : Prop
  | backup (hbackup : g.settings.backup = true) (hasked : t.asked = s.asked)
      (hadds : g.store.Adds s.disk t.disk) (hfolder : Clean g.store.folder →
        ¬s.disk.missingFrom (s.disk.start g.store.folder) g.store.folder.parts ≤ deepest)
  | artifact {d₁ : Disk} {xs : List (Turn g)} {r : Report} (hbackup : g.BacksUp cs r s.disk d₁)
      (hleads : Leads g xs d₁ s.asked t.disk t.asked)
      (hbreaks : BreaksOff g schema 0 cs e xs t.disk)
  | route {d₁ d₂ : Disk} {xs : List (Turn g)} {r : Report} (hbackup : g.BacksUp cs r s.disk d₁)
      (hplans : Plans g schema 0 cs (xs.map (·.task))) (hleads : Leads g xs d₁ s.asked d₂ t.asked)
      (hroutes : Grows everywhere (· = g.routes.place d₂) d₂ t.disk)
      (hlacks : ¬∀ c ∈ routed cs, g.routes.Holds (c.route g.routes.api) d₂)
      (hfile : g.routes.Legible d₂ → ¬Usable g.routes.path)

end Generator

theorem mem_of_mem_enabledArtifacts {cs : List Configuration} {x : Configuration × Artifact}
    (h : x ∈ enabledArtifacts cs) : x.1 ∈ cs ∧ x.2 ∈ Artifact.enabled x.1.toggles := by
  obtain ⟨c, hc, hx⟩ := List.mem_flatMap.1 h
  obtain ⟨a, ha, rfl⟩ := List.mem_map.1 hx
  exact ⟨hc, ha⟩

/-- The entities of turns in the order of generation have words for names. -/
theorem Configuration.Built.words_of_turns {schema : Schema} {cs : List Configuration}
    {memory : Memory} (h : Configuration.Built schema cs memory) {xs : List (Turn g)}
    (hxs : xs.map (fun x ↦ (x.task.config, x.task.artifact)) <+: enabledArtifacts cs) :
    ∀ x ∈ xs, x.task.config.studly = "" ∨ IsWord x.task.config.studly := fun _ hx ↦
  h.words _ (mem_of_mem_enabledArtifacts (hxs.subset (List.mem_map_of_mem hx))).1

theorem Plans.enabled_eq {schema : Schema} {cs : List Configuration} {xs : List (Turn g)}
    (h : Plans g schema 0 cs (xs.map (·.task))) :
    xs.map (fun x ↦ (x.task.config, x.task.artifact)) = enabledArtifacts cs := by
  rw [← h.enabled, List.map_map]
  rfl

theorem Plans.isPrefix {schema : Schema} {cs : List Configuration} {xs : List (Turn g)}
    (h : Plans g schema 0 cs (xs.map (·.task))) :
    xs.map (fun x ↦ (x.task.config, x.task.artifact)) <+: enabledArtifacts cs := by
  rw [h.enabled_eq]

namespace Generator

variable {schema : Schema} {cs : List Configuration} {memory : Memory} {r : Report} {s : Scene}

/-- A run comes to its report, or it breaks off. -/
theorem ends_process (hwf : s.disk.WellFormed) (hroot : g.routes.root.Spelled)
    (hbuilt : Configuration.Built schema cs memory) (hfresh : r.Fresh) :
    Ends (g.process schema cs { memory with log := [] } r) s (fun r t ↦ Reports g schema cs s r t)
      fun e t ↦ Breaks g schema cs s e t := by
  have hrelated (name : String) (memory : Memory) (hmemory : memory.Sound schema) :
      Ends (Resolve.related schema name []) memory
        (fun _ t ↦ True ∧ ({ t with log := [] } : Memory).Sound schema) fun _ _ ↦ False :=
    (Resolve.ends_related hbuilt.no_loop name hmemory).mono
      (fun _ _ ht ↦ ⟨trivial, ht.relations, ht.fields⟩) fun _ _ ↦ id
  have hsound : ({ memory with log := [] } : Memory).Sound schema :=
    ⟨hbuilt.sound.relations, hbuilt.sound.fields⟩
  -- What follows once the backup is made, or none is wanted.
  have hrest (r₁ : Report) (t : Scene) (hasked : t.asked = s.asked) (hfresh₁ : r₁.Fresh)
      (hbackup : g.BacksUp cs r₁ s.disk t.disk) :
      Ends (do g.registerRoutes cs (← g.generateAll schema cs { memory with log := [] } r₁)) t
        (fun r t ↦ Reports g schema cs s r t) fun e t ↦ Breaks g schema cs s e t := by
    have hframe := hbackup.frame hwf
    rw [ends_bind]
    refine (ends_generateAll hrelated hsound).mono ?_ ?_
    · rintro r₂ t₂ ⟨_, xs, os, hplans, rfl, -, hleads, htells, hadds⟩
      have hwords := hbuilt.words_of_turns hplans.isPrefix
      have hwf₂ := (hleads.grows hframe.wellFormed g.spelled_root hwords).1.wellFormed
      rw [hasked] at hleads
      refine (ends_registerRoutes hwf₂ hroot hbuilt.words).mono ?_ ?_
      · rintro r₃ t₃ ⟨hasked₃, hgrows, results, hroutes, hresults, hheld⟩
        rw [← hasked₃] at hleads
        refine .complete (hbackup.of_backup (hroutes.backup.trans hadds.backup)) hplans hleads htells
          hgrows hresults ?_ ?_ hheld ?_ ?_ ?_
        · rw [hroutes.validationErrors, hadds.validationErrors, hfresh₁.validationErrors]
        · rw [hroutes.backupErrors, hadds.backupErrors, hfresh₁.backupErrors]
        · rw [hroutes.outcomes, hadds.outcomes, hfresh₁.outcomes, List.nil_append]
        · rw [hroutes.routes, hadds.routes, hfresh₁.routes, List.nil_append]
        · rw [hroutes.generationErrors, hadds.generationErrors, hfresh₁.generationErrors]
          simp
      · rintro e t₃ ⟨hasked₃, hgrows, hlacks, hfile⟩
        rw [← hasked₃] at hleads
        exact .route hbackup hplans hleads (hgrows.mono (fun _ _ ↦ trivial) fun _ ↦ id) hlacks hfile
    · rintro e t₂ ⟨xs, -, hleads, hbreaks⟩
      rw [hasked] at hleads
      exact .artifact hbackup hleads hbreaks
  rw [process]
  rcases hbackup : g.settings.backup with - | -
  · simpa using hrest r s rfl hfresh (.off hbackup)
  · simp only [if_true]
    rw [ends_bind]
    refine (ends_backUp hwf hbuilt.words hbackup hfresh).mono ?_ ?_
    · rintro ⟨r₁, ready⟩ t
        ⟨hasked, ⟨rfl, hfresh₁, hbacksUp, -⟩ | ⟨rfl, herrors, houtcomes, hroutes, hadded⟩⟩
      · simpa using hrest r₁ t hasked hfresh₁ hbacksUp
      · simpa using Reports.unready hbackup herrors houtcomes hroutes hasked hadded
    · rintro e t ⟨hasked, hadds, hfolder⟩
      exact .backup hbackup hasked hadds hfolder

end Generator

/-! ## A small project -/

namespace SmallProject

/-- The entity is worked out, and its model is all that is generated. -/
theorem exists_built : ∃ cs memory,
    (Configuration.buildAll schema).run.run Memory.empty = (.ok cs, memory) ∧
      (enabledArtifacts cs).map (fun x ↦ (x.1.studly, x.2)) = [("Post", .model)] ∧
        routed cs = [] := by
  obtain ⟨cs, memory, hrun, htest⟩ := exists_run_of_passes (Configuration.buildAll schema)
    Memory.empty (fun cs _ ↦ decide
      ((enabledArtifacts cs).map (fun x ↦ (x.1.studly, x.2)) = [("Post", .model)] ∧
        routed cs = [])) (by decide +kernel)
  exact ⟨cs, memory, hrun, of_decide_eq_true htest⟩

end SmallProject

end Scaffold
