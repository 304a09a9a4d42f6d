import Scaffold.Proofs.Generation.Whole

/-!
# Running again

A run without errors leaves everything it generates in place: each artifact, a migration for each
table, and the route of each controller. A second run that skips what is there finds all of it and
changes nothing, whatever stubs it has.
-/

namespace Scaffold

open Disk DiskOp

namespace Disk

variable {d d' : Disk} {p : Path} {place l : Location} {parts : List String} {text : String}

/-- What stands on the way to a path stands on another disk as well. -/
def KeepsWay (d d' : Disk) (p : Path) : Prop :=
  d'.cwd = d.cwd ∧ ∀ a, a <+: p.parts → ∀ n, d.node? (d.resolve ⟨p.slashes, a⟩) = some n →
    d'.node? (d.resolve ⟨p.slashes, a⟩) = some n

theorem KeepsWay.locate (h : KeepsWay d d' p) (hlocate : d.locate p = .ok l) :
    d'.locate p = .ok l := by
  have hfault := pathFault?_of_locate hlocate
  have hstart : d'.start p = d.start p := by rw [start, start, h.1]
  rw [locate_eq_walk hfault] at hlocate ⊢
  rw [hstart]
  exact walk_eq_ok_of_keeps hlocate fun a ha ↦ h.2 a ha .dir

theorem KeepsWay.isThere (h : KeepsWay d d' p) (hthere : d.isThere p = .ok true) :
    d'.isThere p = .ok true := by
  obtain ⟨hlocate, hsome⟩ := isThere_eq_true_iff.1 hthere
  obtain ⟨n, hn⟩ := Option.isSome_iff_exists.1 hsome
  rw [isThere_eq_true_iff, resolve_congr h.1]
  exact ⟨h.locate hlocate, by rw [h.2 _ (List.prefix_refl _) n hn]; rfl⟩

theorem KeepsWay.readText (h : KeepsWay d d' p) (hread : d.readText p = .ok text) :
    d'.readText p = .ok text := by
  obtain ⟨hlocate, content, hfile, hdecode⟩ := readText_eq_ok_iff.1 hread
  rw [readText_eq_ok_iff, resolve_congr h.1]
  exact ⟨h.locate hlocate, content,
    file?_eq_some_iff.2 (h.2 _ (List.prefix_refl _) _ (file?_eq_some_iff.1 hfile)), hdecode⟩

end Disk

/-! ## Everything in place -/

namespace Generator

variable {g g' : Generator} {cs : List Configuration} {d d' : Disk}

/-- The paths at which a run looks for what it generates. -/
inductive Generates (g : Generator) (cs : List Configuration) : Path → Prop
  | artifact {c : Configuration} {a : Artifact} {p : Path} (hmem : (c, a) ∈ enabledArtifacts cs)
      (hp : a.LiesAt c p) : Generates g cs (g.root ++ p)
  | routes : Generates g cs g.routes.path

/-- Everything that a run generates is there. -/
structure Settled (g : Generator) (cs : List Configuration) (d : Disk) : Prop where
  artifacts : ∀ c a, (c, a) ∈ enabledArtifacts cs → ∃ p, a.LiesAt c p ∧
    d.isThere (g.root ++ p) = .ok true
  routes : ∀ c ∈ routed cs, g.routes.Holds (c.route g.routes.api) d

theorem Settled.of_keepsWay (h : g.Settled cs d)
    (hkeeps : ∀ p, g.Generates cs p → KeepsWay d d' p) : g.Settled cs d' where
  artifacts c a hmem := by
    obtain ⟨p, hp, hthere⟩ := h.artifacts c a hmem
    exact ⟨p, hp, (hkeeps _ (.artifact hmem hp)).isThere hthere⟩
  routes c hc := by
    obtain ⟨text, hread, hcontains⟩ := h.routes c hc
    exact ⟨text, (hkeeps _ .routes).readText hread, hcontains⟩

/-- A backup leaves everything in place. -/
theorem Settled.of_frame (h : g.Settled cs d) (hframe : g.store.Frame d d') : g.Settled cs d' where
  artifacts c a hmem := by
    obtain ⟨p, hp, hthere⟩ := h.artifacts c a hmem
    exact ⟨p, hp, hframe.isThere hthere⟩
  routes c hc := by
    obtain ⟨text, hread, hcontains⟩ := h.routes c hc
    refine ⟨text, hframe.readText (fun hfile ↦ ?_) hread, hcontains⟩
    obtain ⟨-, content, hcontent, -⟩ := readText_eq_ok_iff.1 hread
    rw [hfile.1] at hcontent
    cases hcontent

end Generator

/-- After a turn that did not fail its artifact is there, and it stays there. -/
theorem Leads.isThere {g : Generator} {xs : List (Turn g)} {d d' : Disk} {asked asked' : List String}
    (h : Leads g xs d asked d' asked') (hwf : d.WellFormed)
    (hwords : ∀ x ∈ xs, x.task.config.studly = "" ∨ IsWord x.task.config.studly) {x : Turn g}
    (hx : x ∈ xs) {status : ArtifactStatus} (hending : x.ending = .ok status)
    (hstatus : status ≠ .failed) : d'.isThere (g.root ++ x.path) = .ok true := by
  obtain ⟨-, hpaths⟩ := h.grows hwf g.spelled_root hwords
  obtain ⟨hbefore, -, hpath⟩ := hpaths x hx
  obtain ⟨ys, zs, rfl⟩ := List.append_of_mem hx
  have hturn := (x.grows hbefore g.spelled_root hpath).1
  have hlater := (h.split.2.grows hturn.wellFormed g.spelled_root fun y hy ↦ hwords y (by simp [hy])).1
  exact hlater.isThere (x.isThere_of_ending hbefore g.spelled_root hpath hending hstatus)

namespace Generator

variable {g : Generator} {schema : Schema} {cs : List Configuration} {memory : Memory} {r : Report}
  {s t : Scene} {d : Disk}

/-- A run without errors leaves everything in place. -/
theorem Reports.settled (h : Reports g schema cs s r t) (hwf : s.disk.WellFormed)
    (hbuilt : Configuration.Built schema cs memory) (hsuccess : r.isSuccess = true) :
    t.disk.WellFormed ∧ g.Settled cs t.disk := by
  simp only [Report.isSuccess, Bool.and_eq_true, List.isEmpty_iff] at hsuccess
  obtain ⟨⟨-, hgenerated⟩, hready⟩ := hsuccess
  cases h with
  | unready hbackup herrors => exact absurd hready herrors
  | @complete d₁ d₂ xs os results hbackup hplans hleads htells hroutes hresults hvalidation hready
      hheld houtcomes hregistered herrors =>
    obtain ⟨hnofail, hnoerror⟩ := herrors.1 hgenerated
    have hwords := hbuilt.words_of_turns hplans.isPrefix
    have hwf₁ := (hbackup.frame hwf).wellFormed
    refine ⟨hroutes.wellFormed, fun c a hmem ↦ ?_, fun c hc ↦ ?_⟩
    · rw [← hplans.enabled_eq] at hmem
      obtain ⟨x, hx, hca⟩ := List.mem_map.1 hmem
      obtain ⟨rfl, rfl⟩ := Prod.mk.inj hca
      obtain ⟨o, ho, status, hending, htold⟩ := exists_of_forall₂_of_mem_right htells.flip hx
      refine ⟨x.path, Task.liesAt x.located, hroutes.isThere ?_⟩
      exact hleads.isThere hwf₁ hwords hx hending (htold.status ▸ hnofail o ho)
    · obtain ⟨result, hresult, hx⟩ := exists_of_forall₂_of_mem_right hresults.flip hc
      cases result with
      | none => exact absurd hresult hnoerror
      | some x => exact (hx x rfl).2

/-! ## Turns that find everything in place -/

/-- What ends as a migration in the folder is found, unless its path is too long to be asked
about. -/
theorem isThere_child (hwf : d.WellFormed) {root : Path} {name : String}
    (hdir : d.isDir (root ++ Migration.folder) = .ok true)
    (hsome : (d.node? (d.resolve (root ++ Migration.folder) ++ [name])).isSome)
    (hphp : Text.endsWith name ".php" = true)
    (hfault : pathFault? (root ++ Migration.folder.child name) = none) :
    d.isThere (root ++ Migration.folder.child name) = .ok true := by
  obtain ⟨n, hn⟩ := Option.isSome_iff_exists.1 hsome
  obtain ⟨-, hname⟩ := hwf.parent _ _ _ hn
  obtain ⟨hlocate, hnode⟩ := isDir_eq_true_iff.1 hdir
  have htarget := Migration.isTarget_child hphp hname.noSlash
  rw [isThere_eq_true_iff, htarget.resolve_eq, ← Migration.resolve_child]
  refine ⟨?_, hsome⟩
  have hparts : (root ++ Migration.folder.child name).parts =
      (root ++ Migration.folder).parts ++ [name] := by
    rw [htarget.append_eq, Path.append_eq root (show Migration.folder.slashes = 0 from rfl),
      List.append_assoc]
    rfl
  have hstart : d.start (root ++ Migration.folder.child name) = d.start (root ++ Migration.folder) :=
    rfl
  rw [locate_eq_walk (pathFault?_of_locate hlocate)] at hlocate
  rw [locate_eq_walk hfault, hparts, hstart, walk_append, hlocate]
  change d.walk _ [name] = _
  rw [walk_down _ _ _ hnode (ne_of_endsWith hphp (.inr (by decide))), hname.short]
  rfl

/-- Every migration of the entities that is there can be asked about. -/
def Askable (g : Generator) (cs : List Configuration) (d : Disk) : Prop :=
  ∀ c, (c, .migration) ∈ enabledArtifacts cs → ∀ name,
    Text.endsWith name (Migration.ending c.table) = true →
      (d.node? (d.resolve (g.root ++ Migration.folder) ++ [name])).isSome →
        pathFault? (g.root ++ Migration.folder.child name) = none

/-- If a migration of a table is there, the path of the table's migration leads to one. -/
theorem exists_migration {root : Path} {table name : String}
    (hend : Text.endsWith name (Migration.ending table) = true)
    (hthere : d.isThere (root ++ Migration.folder.child name) = .ok true) (m : Moment) :
    ∃ least, Migration.path d root table m = .ok (Migration.folder.child least) ∧
      d.isDir (root ++ Migration.folder) = .ok true ∧
        (d.node? (d.resolve (root ++ Migration.folder) ++ [least])).isSome ∧
          Text.endsWith least (Migration.ending table) = true := by
  have hdots : ".." ∉ [name] := fun hmem ↦
    ne_of_endsWith (Migration.endsWith_php hend) (.inr (by decide)) (List.mem_singleton.1 hmem).symm
  obtain ⟨hlocate, hsome⟩ := isThere_eq_true_iff.1 hthere
  have hchild : root ++ Migration.folder.child name =
      ⟨root.slashes, (root ++ Migration.folder).parts ++ [name]⟩ := by
    rw [Path.append_eq root (show (Migration.folder.child name).slashes = 0 from rfl),
      Path.append_eq root (show Migration.folder.slashes = 0 from rfl), List.append_assoc]
    rfl
  rw [hchild] at hlocate hsome
  have hdir : d.isDir (root ++ Migration.folder) = .ok true := isDir_of_locate hlocate (by simp)
  rw [resolve_append _ _ _ hdots] at hsome
  rcases hnames : Migration.existing d root table with e | - | ⟨least, rest⟩
  · rw [Migration.existing, hdir] at hnames
    cases hnames
  · rw [Migration.existing, hdir] at hnames
    have hmem : name ∈ ([] : List String) := by
      rw [← Except.ok.inj hnames, List.mem_mergeSort, List.mem_filter, list,
        (isDir_eq_true_iff.1 hdir).1, mem_namesIn]
      exact ⟨hsome, hend⟩
    cases hmem
  · exact ⟨least, by rw [Migration.path, hnames]; rfl, Migration.mem_existing hnames List.mem_cons_self⟩

/-- When everything is in place the path of an artifact is worked out, and something stands there. -/
theorem Settled.exists_pathOn (h : g.Settled cs d) (hwf : d.WellFormed) {x : Task}
    (hmem : (x.config, x.artifact) ∈ enabledArtifacts cs) :
    ∃ p, x.pathOn g.root d = .ok p ∧
      (d.isThere (g.root ++ p) = .ok true ∨ ∃ e, d.isThere (g.root ++ p) = .error e) ∧
        (g.Askable cs d → d.isThere (g.root ++ p) = .ok true) := by
  obtain ⟨p, hp, hthere⟩ := h.artifacts _ _ hmem
  rw [Artifact.LiesAt] at hp
  rw [Task.pathOn]
  rcases hfixed : x.artifact.fixedPath? x.config with - | q
  · rw [hfixed] at hp
    obtain ⟨name, rfl, hend⟩ := hp
    obtain ⟨least, hleast, hdir, hsome, hleastEnd⟩ := exists_migration hend hthere x.moment
    have hfound := isThere_child hwf hdir hsome (Migration.endsWith_php hleastEnd)
    refine ⟨_, hleast, ?_, fun hask ↦ hfound ?_⟩
    · rcases pathFault?_cases (g.root ++ Migration.folder.child least) with hfault | hnul | hlong
      · exact .inl (hfound hfault)
      · refine absurd hnul (clean_iff.1 (List.forall_mem_append.2 ⟨fun part hpart ↦ ?_, ?_⟩))
        · exact Clean.of_pathFault? (pathFault?_of_locate (isDir_eq_true_iff.1 hdir).1) part
            (List.mem_append_left _ hpart)
        · obtain ⟨n, hn⟩ := Option.isSome_iff_exists.1 hsome
          exact List.forall_mem_append.2
            ⟨by decide, List.forall_mem_singleton.2 (hwf.parent _ _ _ hn).2.noNul⟩
      · exact .inr ⟨⟨.nameTooLong, _⟩, by simp [isThere, holds, nodeAt, Disk.locate, hlong]; rfl⟩
    · have ha := Artifact.eq_migration hfixed
      rw [ha] at hmem
      exact hask _ hmem least hleastEnd hsome
  · rw [hfixed] at hp
    obtain rfl : p = q := hp
    exact ⟨p, rfl, .inl hthere, fun _ ↦ hthere⟩

end Generator

/-! ## A run that skips -/

/-- A turn that finds its artifact in place changes nothing, and the artifact is skipped. -/
theorem Turn.after_eq {g : Generator} {cs : List Configuration} {x : Turn g}
    (h : g.Settled cs x.before) (hwf : x.before.WellFormed)
    (hmem : (x.task.config, x.task.artifact) ∈ enabledArtifacts cs)
    (hskip : g.settings.policy = .skip) :
    x.after = x.before ∧ ∃ status, x.ending = .ok status ∧
      (g.Askable cs x.before → status = .skipped) := by
  obtain ⟨p, hp, hthere, hasked⟩ := h.exists_pathOn hwf hmem
  obtain ⟨task, path, before, asked, result, after, hlocated, htakes⟩ := x
  obtain rfl := Except.ok.inj (hp.symm.trans hlocated)
  have hforbids : g.writer.permits asked p = false := by
    rw [Writer.permits, show g.writer.policy = .skip from hskip]
  have hno {there : Bool} (hfound : before.isThere (g.root ++ p) = .ok there)
      (hpermits : there = true → g.writer.permits asked p = true) : False := by
    rcases hthere with htrue | ⟨e, he⟩
    · rw [Except.ok.inj (hfound.symm.trans htrue), hforbids] at hpermits
      exact absurd (hpermits rfl) (by simp)
    · rw [hfound] at he
      cases he
  cases htakes with
  | @unanswered e hfails =>
    refine ⟨rfl, .failed, ?_, fun hask ↦ ?_⟩
    · exact if_pos (Failure.isDiskFailure_disk.2 (isPlain_of_holds hfails))
    · exact absurd (hfails.symm.trans (hasked hask)) (by simp)
  | kept => exact ⟨rfl, .skipped, rfl, fun _ ↦ rfl⟩
  | unrendered hfound hpermits => exact (hno hfound hpermits).elim
  | refused hfound hpermits => exact (hno hfound hpermits).elim
  | placed hfound hpermits => exact (hno hfound hpermits).elim

/-- A run that skips changes nothing when everything is in place. -/
theorem Leads.eq_of_settled {g : Generator} {cs : List Configuration} {xs : List (Turn g)}
    {d d' : Disk} {asked asked' : List String} (h : Leads g xs d asked d' asked')
    (hsettled : g.Settled cs d) (hwf : d.WellFormed)
    (hmem : ∀ x ∈ xs, (x.task.config, x.task.artifact) ∈ enabledArtifacts cs)
    (hskip : g.settings.policy = .skip) :
    d' = d ∧ ∀ x ∈ xs, ∃ status, x.ending = .ok status ∧ (g.Askable cs d → status = .skipped) := by
  have hturn (x : Turn g) (hx : x ∈ xs) (hbefore : x.before = d) : x.after = d ∧
      ∃ status, x.ending = .ok status ∧ (g.Askable cs d → status = .skipped) := by
    subst hbefore
    exact x.after_eq hsettled hwf (hmem x hx) hskip
  obtain ⟨hend, hall⟩ := h.invariant (· = d) rfl fun x hx hbefore ↦ (hturn x hx hbefore).1
  exact ⟨hend, fun x hx ↦ (hturn x hx (hall x hx)).2⟩

namespace Generator

variable {g : Generator} {raw : Value} {schema : Schema} {cs : List Configuration} {memory : Memory}
  {r : Report} {s t : Scene}

/-- What a run that skips reports when everything is in place: its artifacts are skipped, and no
route is added. -/
structure Repeats (g : Generator) (cs : List Configuration) (r : Report) : Prop where
  outcomes : r.outcomes.map (fun o ↦ (o.entity, o.artifact, o.status)) =
    (enabledArtifacts cs).map fun x ↦ (x.1.studly, x.2.name, .skipped)
  routes : r.routes = (routed cs).map fun c ↦
    ⟨c.route g.routes.api, RouteFile.relativePath g.routes.api, false, false⟩

/-- A run that skips makes its backup and changes nothing else when everything is in place. -/
theorem Reports.repeats (h : Reports g schema cs s r t) (hwf : s.disk.WellFormed)
    (hsettled : g.Settled cs s.disk) (hskip : g.settings.policy = .skip) :
    g.store.Frame s.disk t.disk ∧
      (r.backupErrors = [] → g.Askable cs t.disk → g.Repeats cs r) := by
  cases h with
  | unready hbackup herrors houtcomes hroutes hasked hadds =>
    exact ⟨hadds.frame, fun hnone ↦ absurd hnone herrors⟩
  | @complete d₁ d₂ xs os results hbackup hplans hleads htells hroutes hresults hvalidation hready
      hheld houtcomes hregistered =>
    have hframe := hbackup.frame hwf
    have hsettled₁ := hsettled.of_frame hframe
    have hmem : ∀ x ∈ xs, (x.task.config, x.task.artifact) ∈ enabledArtifacts cs := fun x hx ↦
      hplans.enabled_eq ▸ List.mem_map_of_mem hx
    obtain ⟨rfl, hskipped⟩ := hleads.eq_of_settled hsettled₁ hframe.wellFormed hmem hskip
    obtain ⟨hdisk, rfl⟩ := hheld hsettled₁.routes
    rw [hdisk]
    refine ⟨hframe, fun _ hask ↦ ⟨?_, ?_⟩⟩
    · rw [houtcomes, ← hplans.enabled_eq, List.map_map]
      refine map_eq_map_of_forall₂ (((List.forall₂_and_left _ _).2 ⟨hskipped, htells⟩).flip.imp ?_)
      rintro o x ⟨⟨status, hending, hstatus⟩, status', hending', htold⟩
      obtain rfl := Except.ok.inj (hending.symm.trans hending')
      simp [htold.entity, htold.artifact, htold.status, hstatus hask]
    · simp [hregistered, List.reduceOption, List.filterMap_map]

/-- Such a run breaks off at its backup only. -/
theorem Breaks.backup_of_settled {e : Failure} (h : Breaks g schema cs s e t)
    (hwf : s.disk.WellFormed) (hsettled : g.Settled cs s.disk)
    (hskip : g.settings.policy = .skip) (hclock : ∀ i < cs.length, (g.moment.plus? i).isSome) :
    g.store.Frame s.disk t.disk ∧ g.settings.backup = true ∧ (Clean g.store.folder →
      ¬s.disk.missingFrom (s.disk.start g.store.folder) g.store.folder.parts ≤ deepest) := by
  cases h with
  | backup hbackup hasked hadds hfolder => exact ⟨hadds.frame, hbackup, hfolder⟩
  | @artifact d₁ xs r₁ hbackup hleads hbreaks =>
    have hframe := hbackup.frame hwf
    have hsettled₁ := hsettled.of_frame hframe
    have hmem : ∀ x ∈ xs, (x.task.config, x.task.artifact) ∈ enabledArtifacts cs := fun x hx ↦
      hbreaks.exists_plans.subset (List.mem_map_of_mem hx)
    obtain ⟨hdisk, hskipped⟩ := hleads.eq_of_settled hsettled₁ hframe.wellFormed hmem hskip
    exfalso
    rcases hbreaks.reason with ⟨i, hi, hend⟩ | ⟨x, hx, fault, hpath⟩ | ⟨x, hx, hending⟩
    · have := hclock i hi
      rw [hend] at this
      cases this
    · obtain ⟨p, hp, -⟩ := hsettled₁.exists_pathOn hframe.wellFormed hx
      rw [hdisk, hp] at hpath
      cases hpath
    · obtain ⟨status, hstatus, -⟩ := hskipped x hx
      rw [hending] at hstatus
      cases hstatus
  | @route d₁ d₂ xs r₁ hbackup hplans hleads hroutes hlacks =>
    have hframe := hbackup.frame hwf
    have hsettled₁ := hsettled.of_frame hframe
    have hmem : ∀ x ∈ xs, (x.task.config, x.task.artifact) ∈ enabledArtifacts cs := fun x hx ↦
      hplans.enabled_eq ▸ List.mem_map_of_mem hx
    obtain ⟨rfl, -⟩ := hleads.eq_of_settled hsettled₁ hframe.wellFormed hmem hskip
    exact absurd hsettled₁.routes hlacks

/-- The directory of backups that were made has no NUL in its path. -/
theorem BacksUp.clean {d d' : Disk} (h : g.BacksUp cs r d d') (hbackup : g.settings.backup = true) :
    Clean g.store.folder := by
  cases h with
  | off hoff =>
    rw [hbackup] at hoff
    cases hoff
  | made _ _ _ hmade =>
    obtain ⟨name, rfl, -⟩ := hmade.new.name
    have hfault := pathFault?_of_locate (isDir_eq_true_iff.1 hmade.new.isDir).1
    exact fun part hpart ↦ Clean.of_pathFault? hfault part (List.mem_append_left _ hpart)

/-- What a run without errors leaves. -/
structure Leaves (g : Generator) (cs : List Configuration) (d : Disk) : Prop where
  noNul : pathFault? g.root ≠ some .nul
  clean : g.settings.backup = true → Clean g.store.folder
  settled : g.Settled cs d

theorem leaves (haccepted : schema.Accepted raw)
    (hbuilt : (Configuration.buildAll schema).run.run Memory.empty = (.ok cs, memory))
    (hwf : s.disk.WellFormed) (hroot : g.routes.root.Spelled)
    (hrun : (g.generate raw).run.run s = (.ok r, t)) (hsuccess : r.isSuccess = true) :
    g.Leaves cs t.disk := by
  have hends : Ends (g.generate raw) s (fun r t ↦ r.isSuccess = true → g.Leaves cs t.disk)
      fun _ _ ↦ True := by
    refine ends_generate haccepted (fun cs' memory' r₀ log hrun' hfresh hnul ↦ ?_) fun _ _ _ ↦ trivial
    obtain ⟨hcs, rfl⟩ := Prod.mk.inj (hbuilt.symm.trans hrun')
    obtain rfl := Except.ok.inj hcs
    have hbuilt' := Configuration.built haccepted hbuilt
    refine (ends_process (s := { s with log }) hwf hroot hbuilt' hfresh).mono
      (fun r' t' hreports hsuccess' ↦ ⟨hnul, fun hbackup ↦ ?_, ?_⟩) fun _ _ _ ↦ trivial
    · simp only [Report.isSuccess, Bool.and_eq_true, List.isEmpty_iff] at hsuccess'
      cases hreports with
      | unready _ herrors => exact absurd hsuccess'.2 herrors
      | complete hbacksUp => exact hbacksUp.clean hbackup
    · exact (hreports.settled hwf hbuilt' hsuccess').2
  exact (ends_of_run_ok hrun).1 hends hsuccess

/-- After a run without errors a second one that skips what is there repeats nothing. Its disk may
differ from the one that was left, but for what stood on the ways to what is generated. Files come
below the directory of the backups at most, and unless the backup fails or a migration has too long
a path, every artifact is skipped and no route is added. It breaks off only if too many directories
are missing for its backup. -/
theorem ends_generate_again {settings : Settings} {answers : Option Answers} {moment : Moment}
    (answers' : Option Answers) (moment' : Moment) {s' : Scene} (haccepted : schema.Accepted raw)
    (hbuilt : (Configuration.buildAll schema).run.run Memory.empty = (.ok cs, memory))
    (hwf : s.disk.WellFormed)
    (hfirst : ((ofSettings settings answers moment).generate raw).run.run s = (.ok r, t))
    (hsuccess : r.isSuccess = true) (hwf' : s'.disk.WellFormed)
    (hkeeps : ∀ p, (ofSettings settings answers moment).Generates cs p →
      KeepsWay t.disk s'.disk p)
    (hclock : ∀ i < schema.length, (moment'.plus? i).isSome) :
    let again := ofSettings { settings with policy := .skip } answers' moment'
    Ends (again.generate raw) s'
      (fun r' t' ↦ again.store.Frame s'.disk t'.disk ∧
        (r'.backupErrors = [] → again.Askable cs t'.disk → again.Repeats cs r'))
      fun _ t' ↦ again.store.Frame s'.disk t'.disk ∧ settings.backup = true ∧
        deepest < s'.disk.missingFrom (s'.disk.start settings.backupRoot)
          settings.backupRoot.parts := by
  intro again
  have hleaves := leaves haccepted hbuilt hwf (Path.spelled_ofString _) hfirst hsuccess
  have hbuilt' := Configuration.built haccepted hbuilt
  have hsettled : again.Settled cs s'.disk := by
    obtain ⟨hartifacts, hroutes⟩ := hleaves.settled.of_keepsWay hkeeps
    exact ⟨hartifacts, hroutes⟩
  have hclock' : ∀ i < cs.length, (again.moment.plus? i).isSome := fun i hi ↦ by
    have hlength := congrArg List.length hbuilt'.studly
    rw [List.length_map, List.length_map] at hlength
    exact hclock i (hlength ▸ hi)
  refine ends_generate haccepted (fun cs' memory' r₀ log hrun hfresh _ ↦ ?_) ?_
  · obtain ⟨hcs, rfl⟩ := Prod.mk.inj (hbuilt.symm.trans hrun)
    obtain rfl := Except.ok.inj hcs
    refine (ends_process (s := { s' with log }) hwf' (Path.spelled_ofString _) hbuilt' hfresh).mono
      (fun r' t' hreports ↦ hreports.repeats hwf' hsettled rfl) fun e t' hbreaks ↦ ?_
    obtain ⟨hframe, hbackup, hdeep⟩ := hbreaks.backup_of_settled hwf' hsettled rfl hclock'
    exact ⟨hframe, hbackup, not_le.1 (hdeep (hleaves.clean hbackup))⟩
  · rintro e log (hnul | hno)
    · exact absurd hnul hleaves.noNul
    · exact absurd ⟨cs, memory, hbuilt⟩ hno

/-- The model that a first run made is skipped by a second one. -/
theorem smallProject_again : ∃ r t,
    ((ofSettings (SmallProject.settings .force) none SmallProject.moment).generate
      (.map SmallProject.entries)).run.run SmallProject.scene = (.ok r, t) ∧
    Ends ((ofSettings (SmallProject.settings .skip) none SmallProject.moment).generate
        (.map SmallProject.entries)) t
      (fun r' t' ↦ (ofSettings (SmallProject.settings .skip) none SmallProject.moment).store.Frame
          t.disk t'.disk ∧ (r'.backupErrors = [] →
            r'.outcomes.map (fun o ↦ (o.entity, o.artifact, o.status)) =
              [("Post", "model", .skipped)] ∧ r'.routes = []))
      fun _ _ ↦ False := by
  obtain ⟨cs, memory, hbuilt, henabled, hrouted⟩ := SmallProject.exists_built
  obtain ⟨r, t, hfirst, htest⟩ := exists_run_of_passes
    ((ofSettings (SmallProject.settings .force) none SmallProject.moment).generate
      (.map SmallProject.entries)) SmallProject.scene
    (fun r t ↦ r.isSuccess && decide t.disk.WellFormed) (by decide +kernel)
  obtain ⟨hsuccess, hwf'⟩ := Bool.and_eq_true_iff.1 htest
  refine ⟨r, t, hfirst, (ends_generate_again none SmallProject.moment SmallProject.accepted hbuilt
    (by decide) hfirst hsuccess (of_decide_eq_true hwf') (fun p _ ↦ ⟨rfl, fun _ _ _ ↦ id⟩)
    (by decide)).mono ?_ ?_⟩
  · rintro r' t' ⟨hframe, hrepeats⟩
    refine ⟨hframe, fun hready ↦ ?_⟩
    obtain ⟨houtcomes, hroutes⟩ := hrepeats hready fun c hc ↦ by
      have hmem := List.mem_map_of_mem (f := fun x : Configuration × Artifact ↦ (x.1.studly, x.2)) hc
      rw [henabled] at hmem
      simp at hmem
    rw [hrouted] at hroutes
    refine ⟨houtcomes.trans ?_, hroutes⟩
    have hskipped := congrArg
      (List.map fun x : String × Artifact ↦ (x.1, x.2.name, ArtifactStatus.skipped)) henabled
    rwa [List.map_map] at hskipped
  · rintro e t' ⟨-, hbackup, -⟩
    cases hbackup

end Generator

end Scaffold
