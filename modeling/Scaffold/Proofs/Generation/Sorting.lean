import Scaffold.Proofs.Calendar
import Scaffold.Proofs.Generation.Distinct
import Scaffold.Proofs.Generation.Stopping

/-!
# New migrations in order

Where migrations lie a run writes nothing else: copies and manifests go into sessions, the route
file and the other artifacts into other directories. So a file that comes there is the migration of
an entity, and since no file had its name before, its name begins with the stamp of that entity's
moment. Sorted by name, new migrations are in the order of the schema.
-/

namespace Scaffold

open Disk DiskOp

variable {d d' : Disk} {place : Location} {name : String}

/-! ## What lies where migrations lie -/

/-- No file of a session lies where the migrations of a project lie. -/
theorem BackupStore.not_inSession {folder : Location} :
    ¬InSession folder (place ++ ["database", "migrations", name]) := by
  rintro ⟨session, hsession, hfiled⟩
  have hmigrations : "migrations" ≠ session := fun h ↦ absurd hsession.hyphen (h ▸ by decide)
  have hdatabase : "database" ≠ session := fun h ↦ absurd hsession.hyphen (h ▸ by decide)
  -- The last names of the two locations are compared.
  rcases hfiled with ⟨o, c, hc, heq⟩ | heq <;> replace heq := congrArg List.reverse heq
  · rcases hc.place with ⟨a, studly, file, -, rfl⟩ | ⟨file, -, rfl⟩
    · by_cases hstudly : studly = "" <;> cases a <;>
        simp [Artifact.copyDirs, Artifact.name, hstudly, hdatabase] at heq
    · simp at heq
  · simp [hmigrations] at heq

namespace Generator

variable {g : Generator}

/-- Where the migrations of the project lie. -/
def migrations (g : Generator) (d : Disk) : Location := d.resolve (g.root ++ Migration.folder)

theorem migrations_append (g : Generator) (d : Disk) (name : String) :
    g.migrations d ++ [name] = d.resolve g.root ++ ["database", "migrations", name] := by
  have hfolder : g.root ++ Migration.folder =
      ⟨g.root.slashes, g.root.parts ++ ["database", "migrations"]⟩ := Path.append_eq _ rfl
  rw [migrations, hfolder, resolve_append _ _ _ (by decide), List.append_assoc]
  rfl

/-- The route file does not lie there. -/
theorem migrations_ne_routes : g.migrations d ++ [name] ≠ g.routes.place d' := by
  obtain ⟨file, hfile, hcopy⟩ := copyOf_routes g.routes.api
  intro heq
  rw [migrations_append, RouteFile.place, RouteFile.path, hfile, hcopy.original.resolve_eq] at heq
  replace heq := congrArg List.reverse heq
  simp at heq

end Generator

/-- A turn by which a file comes where migrations lie makes the migration of its entity, under a name
that begins with the stamp of its moment. -/
theorem Turn.eq_newName {g : Generator} {x : Turn g} (hwf : x.before.WellFormed)
    (hword : x.task.config.studly = "" ∨ IsWord x.task.config.studly)
    (hbefore : x.before.file? (g.migrations x.before ++ [name]) = none)
    (hafter : (x.after.file? (g.migrations x.before ++ [name])).isSome) :
    name = Migration.newName x.task.config.table x.task.moment := by
  have hpath := Task.isTarget hwf hword x.located
  obtain ⟨hgrows, -⟩ := x.grows hwf g.spelled_root hpath
  have hplace : g.migrations x.before ++ [name] = x.place := by
    by_contra hne
    rw [hgrows.same _ fun h ↦ hne h.2, hbefore] at hafter
    cases hafter
  have hnone : x.before.node? (g.migrations x.before ++ [name]) = none := by
    refine (file?_eq_none_iff.1 hbefore).resolve_right fun hdir ↦ ?_
    rw [file?_eq_none_iff.2 (.inr (hgrows.keeps _ hdir))] at hafter
    cases hafter
  rw [place, hpath.resolve_eq, g.migrations_append, List.append_cancel_left_eq] at hplace
  have hlocated := x.located
  rw [Task.pathOn] at hlocated
  rcases hfixed : x.task.artifact.fixedPath? x.task.config with - | p
  · rw [hfixed] at hlocated
    obtain ⟨name', heq, -, ⟨rfl, -⟩ | ⟨hsome, -⟩⟩ := Migration.exists_child_of_path hlocated
    · rw [heq] at hplace
      simpa [Path.child, Migration.folder] using hplace
    · rw [heq] at hplace
      obtain rfl : name = name' := by simpa [Path.child, Migration.folder] using hplace
      rw [Generator.migrations] at hnone
      rw [hnone] at hsome
      cases hsome
  · have ha : x.task.artifact ≠ .migration := by
      intro ha
      rw [ha] at hfixed
      cases hfixed
    rw [hfixed] at hlocated
    obtain rfl := Except.ok.inj hlocated
    rw [Artifact.fixedPath?_eq hword ha, Option.some.injEq] at hfixed
    rw [← hfixed] at hplace
    exact absurd (List.append_inj' (show ["database", "migrations"] ++ [name] = _ from hplace) rfl).1.symm
      (Artifact.dirs_ne_migrations ha)

/-- A file that comes in a row of turns comes in one of them. -/
theorem Leads.exists_turn {g : Generator} {xs : List (Turn g)} {asked asked' : List String}
    {l : Location} (h : Leads g xs d asked d' asked') (hnone : d.file? l = none)
    (hsome : (d'.file? l).isSome) :
    ∃ x ∈ xs, x.before.file? l = none ∧ (x.after.file? l).isSome := by
  induction h with
  | stay =>
    rw [hnone] at hsome
    cases hsome
  | turn x hrest ih =>
    rcases hafter : x.after.file? l with - | content
    · obtain ⟨y, hy, hturn⟩ := ih hafter hsome
      exact ⟨y, List.mem_cons_of_mem _ hy, hturn⟩
    · exact ⟨x, List.mem_cons_self, hnone, by rw [hafter]; rfl⟩

namespace Generator

variable {g : Generator} {raw : Value} {schema : Schema} {cs : List Configuration}
  {memory : Memory} {r : Report} {s t : Scene} {e : Failure} {xs : List (Turn g)}
  {keys : List String}

/-! ## What comes in a run -/

/-- A file of that name has come where the migrations lie. -/
def Arrives (g : Generator) (d d' : Disk) (name : String) : Prop :=
  d.node? (g.migrations d ++ [name]) = none ∧ (d'.file? (g.migrations d ++ [name])).isSome

/-- The name of a migration that is new for the entity at a position among the keys of a schema. -/
def nameAt (g : Generator) (keys : List String) (i : ℕ) : Option String :=
  keys[i]?.bind fun key ↦
    (g.moment.plus? i).map fun m ↦ Migration.newName (Name.table (Name.studly key)) m

theorem nameAt_eq (hbuilt : Configuration.Built schema cs memory)
    (hkeys : keys = schema.map Prod.fst) {i : ℕ} {c : Configuration} (hc : cs[i]? = some c)
    {m : Moment} (hm : g.moment.plus? i = some m) :
    g.nameAt keys i = some (Migration.newName c.table m) := by
  have hstudly : (keys.map Name.studly)[i]? = some c.studly := by
    rw [hkeys, List.map_map, ← show cs.map (·.studly) = schema.map (Name.studly ∘ Prod.fst) from
      hbuilt.studly, List.getElem?_map, hc, Option.map_some]
  rw [List.getElem?_map] at hstudly
  obtain ⟨key, hkey, hstudly⟩ := Option.map_eq_some_iff.1 hstudly
  rw [nameAt, hkey, hm, Configuration.table, ← hstudly]
  rfl

theorem nameAt_eq_some_iff {i : ℕ} : g.nameAt keys i = some name ↔
    ∃ key m, keys[i]? = some key ∧ g.moment.plus? i = some m ∧
      Migration.newName (Name.table (Name.studly key)) m = name := by
  simp only [nameAt, Option.bind_eq_some_iff, Option.map_eq_some_iff]
  tauto

/-- A backup brings nothing there. -/
theorem file?_of_adds (h : g.store.Adds d d') (hnone : d.node? (g.migrations d ++ [name]) = none) :
    d'.file? (g.migrations d ++ [name]) = none := by
  rw [h.same _ fun hsession ↦ ?_, file?_eq_none_iff.2 (.inl hnone)]
  rw [g.migrations_append] at hsession
  exact BackupStore.not_inSession hsession.2

/-- What comes between the backup of a run and its routes is new for an entity. -/
theorem exists_nameAt {d₁ d₂ : Disk} {asked asked' : List String}
    (hbuilt : Configuration.Built schema cs memory) (hkeys : keys = schema.map Prod.fst)
    (hadds : g.store.Adds d d₁) (hleads : Leads g xs d₁ asked d₂ asked')
    (hwords : ∀ x ∈ xs, x.task.config.studly = "" ∨ IsWord x.task.config.studly)
    (hmoments : ∀ x ∈ xs, ∃ k, cs[k]? = some x.task.config ∧
      g.moment.plus? (0 + k) = some x.task.moment)
    (hroutes : d'.file? (g.migrations d ++ [name]) = d₂.file? (g.migrations d ++ [name]))
    (h : g.Arrives d d' name) : ∃ i, g.nameAt keys i = some name := by
  obtain ⟨hnone, hsome⟩ := h
  rw [hroutes] at hsome
  obtain ⟨x, hx, hbefore, hafter⟩ := hleads.exists_turn (file?_of_adds hadds hnone) hsome
  obtain ⟨hwf, hcwd, -⟩ := (hleads.grows hadds.wellFormed g.spelled_root hwords).2 x hx
  have hplace : g.migrations d = g.migrations x.before :=
    resolve_congr (hcwd.trans hadds.cwd).symm _
  rw [hplace] at hbefore hafter
  obtain ⟨i, hc, hm⟩ := hmoments x hx
  rw [Nat.zero_add] at hm
  exact ⟨i, by rw [nameAt_eq hbuilt hkeys hc hm, Turn.eq_newName hwf (hwords x hx) hbefore hafter]⟩

/-! ## The order of the names -/

theorem nameAt_lt (hcommon : g.moment.IsCommon) {i j : ℕ} (h : i < j) {name' : String}
    (hi : g.nameAt keys i = some name) (hj : g.nameAt keys j = some name') : name < name' := by
  obtain ⟨key, m, -, hm, rfl⟩ := nameAt_eq_some_iff.1 hi
  obtain ⟨key', m', -, hm', rfl⟩ := nameAt_eq_some_iff.1 hj
  exact Migration.newName_lt hcommon h hm hm' _ _

/-- The files that have come where the migrations lie are the new migrations of entities at some
positions among the keys, and they are sorted by name as the entities are by position. -/
def Ordered (g : Generator) (keys : List String) (d d' : Disk) : Prop :=
  ∃ (positions : List ℕ) (names : List String), positions.Pairwise (· < ·) ∧
    positions.map (g.nameAt keys) = names.map some ∧
    (∀ name, name ∈ names ↔ g.Arrives d d' name) ∧ names.Pairwise (· < ·)

/-- The positions whose migrations have a property. -/
theorem exists_positions (g : Generator) (keys : List String) (good : String → Prop) :
    ∃ positions : List ℕ, positions.Pairwise (· < ·) ∧
      ∀ i, i ∈ positions ↔ ∃ name, g.nameAt keys i = some name ∧ good name := by
  classical
  refine ⟨(List.range keys.length).filter fun i ↦ ∃ name, g.nameAt keys i = some name ∧ good name,
    List.pairwise_lt_range.filter _, fun i ↦ ?_⟩
  simp only [List.mem_filter, List.mem_range, decide_eq_true_eq, and_iff_right_iff_imp]
  rintro ⟨name, hname, -⟩
  obtain ⟨key, m, hkey, -⟩ := nameAt_eq_some_iff.1 hname
  exact (List.getElem?_eq_some_iff.1 hkey).1

theorem ordered_of_forall (hcommon : g.moment.IsCommon)
    (h : ∀ name, g.Arrives d d' name → ∃ i, g.nameAt keys i = some name) :
    g.Ordered keys d d' := by
  obtain ⟨positions, hpositions, hmem⟩ := g.exists_positions keys (g.Arrives d d')
  obtain ⟨names, hnames⟩ : ∃ names : List String, positions.map (g.nameAt keys) = names.map some := by
    refine ⟨positions.map fun i ↦ (g.nameAt keys i).getD "", ?_⟩
    rw [List.map_map]
    refine List.map_congr_left fun i hi ↦ ?_
    obtain ⟨name, hname, -⟩ := (hmem i).1 hi
    rw [Function.comp_apply, hname]
    rfl
  refine ⟨positions, names, hpositions, hnames, fun name ↦ ?_, ?_⟩
  · rw [← List.mem_map_of_injective (Option.some_injective String), ← hnames, List.mem_map]
    constructor
    · rintro ⟨i, hi, hname⟩
      obtain ⟨name', hname', harrives⟩ := (hmem i).1 hi
      obtain rfl := Option.some.inj (hname.symm.trans hname')
      exact harrives
    · intro harrives
      obtain ⟨i, hname⟩ := h name harrives
      exact ⟨i, (hmem i).2 ⟨name, hname, harrives⟩, hname⟩
  · have hless : (positions.map (g.nameAt keys)).Pairwise
        fun o o' ↦ ∀ name name', o = some name → o' = some name' → name < name' :=
      List.pairwise_map.2 (hpositions.imp fun hij _ _ ↦ nameAt_lt hcommon hij)
    rw [hnames, List.pairwise_map] at hless
    exact hless.imp fun h ↦ h _ _ rfl rfl

/-! ## Whole runs -/

theorem ordered_of_adds (h : g.store.Adds d d') (hcommon : g.moment.IsCommon) :
    g.Ordered keys d d' := by
  refine ordered_of_forall hcommon fun name harrives ↦ ?_
  have hsome := harrives.2
  rw [file?_of_adds h harrives.1] at hsome
  cases hsome

theorem Reports.ordered (h : Reports g schema cs s r t) (hcommon : g.moment.IsCommon)
    (hwf : s.disk.WellFormed) (hbuilt : Configuration.Built schema cs memory)
    (hkeys : keys = schema.map Prod.fst) : g.Ordered keys s.disk t.disk := by
  cases h with
  | unready hbackup herrors houtcomes hroutes hasked hadds => exact ordered_of_adds hadds hcommon
  | @complete d₁ d₂ xs os results hbackup hplans hleads htells hgrows =>
    have hwords := hbuilt.words_of_turns hplans.isPrefix
    exact ordered_of_forall hcommon fun name ↦
      exists_nameAt hbuilt hkeys (hbackup.adds hwf) hleads hwords
        (fun x hx ↦ hplans.moments _ (List.mem_map_of_mem hx)) (hgrows.same _ migrations_ne_routes)

theorem Breaks.ordered (h : Breaks g schema cs s e t) (hcommon : g.moment.IsCommon)
    (hwf : s.disk.WellFormed) (hbuilt : Configuration.Built schema cs memory)
    (hkeys : keys = schema.map Prod.fst) : g.Ordered keys s.disk t.disk := by
  cases h with
  | backup hbackup hasked hadds => exact ordered_of_adds hadds hcommon
  | @artifact d₁ xs r₁ hbackup hleads hbreaks =>
    have hwords := hbuilt.words_of_turns hbreaks.exists_plans
    exact ordered_of_forall hcommon fun name ↦
      exists_nameAt hbuilt hkeys (hbackup.adds hwf) hleads hwords hbreaks.moments rfl
  | @route d₁ d₂ xs r₁ hbackup hplans hleads hgrows =>
    have hwords := hbuilt.words_of_turns hplans.isPrefix
    exact ordered_of_forall hcommon fun name ↦
      exists_nameAt hbuilt hkeys (hbackup.adds hwf) hleads hwords
        (fun x hx ↦ hplans.moments _ (List.mem_map_of_mem hx)) (hgrows.same _ migrations_ne_routes)

/-- A run over any value leaves the disk alone, or goes on from the entities of a schema. -/
theorem ends_run_of_process (hfresh : r.Fresh) {good : Report → Scene → Prop}
    {bad : Failure → Scene → Prop} (hidle : ∀ r' log, good r' { s with log })
    (hbad : ∀ e log, bad e { s with log })
    (hprocess : ∀ schema cs memory r' log, schema.Accepted raw →
      (Configuration.buildAll schema).run.run Memory.empty = (.ok cs, memory) → r'.Fresh →
        Ends (g.process schema cs { memory with log := [] } r') { s with log } good bad) :
    Ends (g.run raw r) s good bad := by
  rcases hexamine : Validation.examine raw with e | report
  · rw [run, ends_bind, validate, hexamine, ends_bind, Run.ends_lift]
    exact ⟨fun _ hok ↦ (by cases hok), fun _ _ ↦ hbad _ s.log⟩
  rcases hvalid : report.isValid with - | -
  · rw [run, ends_bind, validate, hexamine]
    simp only [hvalid, ends_bind, Run.ends_sayAll, Bool.not_false, if_true, Run.ends_lift,
      Except.ok.injEq, forall_eq', ends_pure, reduceCtorEq, false_imp_iff, implies_true, and_true]
    exact hidle _ _
  · obtain rfl := Validation.eq_validate_of_examine hexamine
    obtain ⟨schema, haccepted⟩ := Validation.exists_accepted hvalid
    exact ends_run haccepted hfresh (fun cs memory r' log ↦ hprocess schema cs memory r' log haccepted)
      fun e log _ ↦ hbad e log

/-- The names of the entities of a raw schema, in its order. -/
def keysOf : Value → List String
  | .map entries => entries.map (·.1.plain)
  | _ => []

theorem keysOf_eq (haccepted : schema.Accepted raw) : keysOf raw = schema.map Prod.fst := by
  obtain ⟨entries, rfl, -⟩ := haccepted.read
  exact map_eq_map_of_forall₂ (haccepted.forall₂_entries.imp fun _ _ h ↦ h.1.symm)

theorem ends_run_ordered (hcommon : g.moment.IsCommon) (hroot : g.routes.root.Spelled)
    (hwf : s.disk.WellFormed) (hfresh : r.Fresh) :
    Ends (g.run raw r) s (fun _ t ↦ g.Ordered (keysOf raw) s.disk t.disk)
      fun _ t ↦ g.Ordered (keysOf raw) s.disk t.disk := by
  have hidle : g.Ordered (keysOf raw) s.disk s.disk := ordered_of_adds (.refl hwf) hcommon
  refine ends_run_of_process hfresh (fun _ _ ↦ hidle) (fun _ _ ↦ hidle)
    fun schema cs memory r' log haccepted hrun hfresh' ↦ ?_
  have hbuilt := Configuration.built haccepted hrun
  exact (ends_process (s := { s with log }) hwf hroot hbuilt hfresh').mono
    (fun _ _ h ↦ h.ordered hcommon hwf hbuilt (keysOf_eq haccepted))
    fun _ _ h ↦ h.ordered hcommon hwf hbuilt (keysOf_eq haccepted)

/-- The names of the entities in the schema file of a run. -/
def keysIn (g : Generator) (file : Option Path) (d : Disk) : List String :=
  match (Run.loadSchema (g.fileOf file)).resultOn d with
  | .ok entries => keysOf (.map entries)
  | .error _ => []

/-- A migration that is new comes before one that is new later in the same run, whatever their tables
are, so whatever a run over a raw value or a schema file does, the migrations it creates are sorted by
name in the order of their entities. -/
theorem ends_migrations_sorted (g : Generator) (hcommon : g.moment.IsCommon) :
    (∀ (i j : ℕ) (later : Moment), i < j → g.moment.plus? j = some later →
      ∃ earlier, g.moment.plus? i = some earlier ∧
        ∀ t u, Migration.newName t earlier < Migration.newName u later) ∧
    ∀ s : Scene, s.disk.WellFormed → g.routes.root.Spelled →
      (∀ raw, Ends (g.generate raw) s (fun _ t ↦ g.Ordered (keysOf raw) s.disk t.disk)
        fun _ t ↦ g.Ordered (keysOf raw) s.disk t.disk) ∧
      ∀ file, Ends (g.generateFile file) s
        (fun _ t ↦ g.Ordered (g.keysIn file s.disk) s.disk t.disk)
        fun _ t ↦ g.Ordered (g.keysIn file s.disk) s.disk t.disk := by
  refine ⟨fun i j later hij hlater ↦ ?_, fun s hwf hroot ↦ ⟨fun raw ↦ ?_, fun file ↦ ?_⟩⟩
  · obtain ⟨earlier, hearlier, -⟩ := Moment.exists_plus?_lt hij hlater
    exact ⟨earlier, hearlier, Migration.newName_lt hcommon hij hearlier hlater⟩
  · have hidle : g.Ordered (keysOf raw) s.disk s.disk := ordered_of_adds (.refl hwf) hcommon
    rw [generate, ends_bind]
    exact ends_absoluteRoot (fun _ _ ↦ ends_run_ordered hcommon hroot hwf (Report.fresh_empty _ _))
      fun _ _ ↦ hidle
  · have hidle : g.Ordered (g.keysIn file s.disk) s.disk s.disk :=
      ordered_of_adds (.refl hwf) hcommon
    rw [generateFile, ends_bind]
    refine ends_absoluteRoot (fun _ _ ↦ ?_) fun _ _ ↦ hidle
    rw [ends_bind, Run.ends_attempt]
    refine (Run.reads_loadSchema _).ends (fun entries log hload ↦ ?_) fun e log hload ↦
      ⟨fun _ ↦ ?_, fun _ ↦ hidle⟩
    · have hload' : (Run.loadSchema (g.fileOf file)).resultOn s.disk = .ok entries := hload
      simp only [keysIn, hload', ends_bind, Run.ends_say]
      exact ends_run_ordered (s := { s with log := log ++ _ }) hcommon hroot hwf
        ⟨rfl, rfl, rfl, rfl, rfl⟩
    · simp only [ends_bind, Run.ends_say, ends_pure]
      exact hidle

end Generator

namespace SmallProject

/-- Two entities that get a migration each, the later one of which has the earlier name. -/
def migrated : List (Value × Value) :=
  ["Zebra", "Apple"].map fun key ↦ (.text key, .map
    [(.text "fields", .map [(.text "title", .text "string")]),
      (.text "generate", .list [.text "migration"])])

/-- The last second of a day before a leap day. -/
def lateGenerator : Generator := .ofSettings (settings .skip) none ⟨⟨2024, 2, 28⟩, 23, 59, 59⟩

/-- The two migrations come with a midnight between them. -/
theorem generate_sorted : ∃ r t,
    (lateGenerator.generate (.map migrated)).run.run ⟨⟨[], []⟩, [], []⟩ = (.ok r, t) ∧
      lateGenerator.Ordered ["Zebra", "Apple"] ⟨[], []⟩ t.disk ∧
      lateGenerator.Arrives ⟨[], []⟩ t.disk "2024_02_28_235959_create_zebras_table.php" ∧
      lateGenerator.Arrives ⟨[], []⟩ t.disk "2024_02_29_000000_create_apples_table.php" ∧
      Migration.newName "zebras" ⟨⟨2024, 2, 28⟩, 23, 59, 59⟩ <
        Migration.newName "apples" ⟨⟨2024, 2, 29⟩, 0, 0, 0⟩ := by
  obtain ⟨r, t, hrun, htest⟩ := exists_run_of_passes (lateGenerator.generate (.map migrated))
    ⟨⟨[], []⟩, [], []⟩ (fun _ t ↦
      (t.disk.file? ["database", "migrations", "2024_02_28_235959_create_zebras_table.php"]).isSome &&
        (t.disk.file? ["database", "migrations", "2024_02_29_000000_create_apples_table.php"]).isSome)
    (by decide +kernel)
  rw [Bool.and_eq_true] at htest
  obtain ⟨hnames, hruns⟩ := Generator.ends_migrations_sorted lateGenerator (by decide)
  obtain ⟨earlier, hearlier, hless⟩ := hnames 0 1 ⟨⟨2024, 2, 29⟩, 0, 0, 0⟩ (by decide) (by decide)
  obtain rfl := Option.some.inj (hearlier.symm.trans (show _ = some _ from rfl))
  exact ⟨r, t, hrun,
    (ends_of_run_ok hrun).1 ((hruns ⟨⟨[], []⟩, [], []⟩ (by decide) (Path.spelled_ofString _)).1
      (.map migrated)),
    ⟨rfl, htest.1⟩, ⟨rfl, htest.2⟩, hless "zebras" "apples"⟩

end SmallProject

end Scaffold
