import Scaffold.Proofs.Generation.Whole

/-!
# Runs that come to an end

If the files that a run reads are texts, its paths can be used and the calendar lasts, the run comes
to its report. An artifact whose stub is missing or unreadable is reported as failed, and so is one
that the disk refuses; every other artifact is dealt with, and so is every route.
-/

namespace Scaffold

open Disk DiskOp

/-! ## Stubs -/

/-- The name of a stub's file is a path of one name. -/
theorem Artifact.ofString_stub (a : Artifact) (c : Configuration) :
    Path.ofString (a.stubKey c ++ ".stub") = ⟨0, [a.stubKey c ++ ".stub"]⟩ := by
  cases a with
  | service =>
    rw [stubKey, Code.serviceStub]
    split <;> decide
  | controller =>
    rw [stubKey, Code.controllerStub]
    split
    · decide
    · split <;> decide
  | model | migration | request | resource | collection | factory | seeder =>
    simp only [stubKey]
    decide

namespace StubSource

variable {s : StubSource} {d d' : Disk} {a : Artifact} {c : Configuration} {e : Failure}

/-- Every stub of the project's own is a text. -/
def Legible (s : StubSource) (d : Disk) : Prop :=
  ∀ folder ∈ s.folder, ∀ (c : Configuration) (a : Artifact) (content : ByteArray),
    d.file? (d.resolve folder ++ [a.stubKey c ++ ".stub"]) = some content →
      ∃ text, Text.decodeLines content = .ok text

/-- Stubs stay texts where no file of their names changes. -/
theorem Legible.of_grows {dirs files : Location → Prop} (h : s.Legible d)
    (hgrows : Grows dirs files d d')
    (hfiles : ∀ l key, files (l ++ [key]) → Text.endsWith key ".stub" = false) : s.Legible d' := by
  intro folder hfolder c a content hcontent
  rw [hgrows.resolve_eq, hgrows.same _ fun hfile ↦ ?_] at hcontent
  · exact h folder hfolder c a content hcontent
  · have := hfiles _ _ hfile
    rw [Bool.eq_false_iff, ne_eq, endsWith_iff, String.toList_append] at this
    exact this (List.suffix_append _ _)

/-- A file of a stub is found where it lies, or the question about it is refused. -/
theorem ends_file? {key : String} {t : Scene} :
    Ends (s.file? key) t
      (fun found u ↦ u = t ∧ ∀ p ∈ found, ∃ folder ∈ s.folder,
        p = folder ++ Path.ofString (key ++ ".stub") ∧ t.disk.isFile p = .ok true)
      fun e _ ↦ e.isDiskFailure = true := by
  rw [file?]
  rcases hfolder : s.folder with - | folder
  · exact (ends_pure _).2 ⟨rfl, by simp⟩
  · simp only
    rw [ends_bind, Run.ends_query]
    refine ⟨fun there hthere ↦ ?_, fun e he ↦ Failure.isDiskFailure_disk.2 (isPlain_of_holds he)⟩
    cases there with
    | false => exact (ends_pure _).2 ⟨rfl, by simp⟩
    | true =>
      refine (ends_pure _).2 ⟨rfl, fun p hp ↦ ⟨folder, rfl, ?_⟩⟩
      obtain rfl := Option.some.inj hp
      exact ⟨rfl, hthere⟩

/-- A stub that is not found is missing, or the disk refuses it. -/
theorem Legible.isDiskFailure (h : s.Legible d)
    (he : (s.find (a.stubKey c)).resultOn d = .error e) : e.isDiskFailure = true := by
  have hends : Ends (s.find (a.stubKey c)) ⟨d, [], []⟩ (fun _ _ ↦ True)
      fun e _ ↦ e.isDiskFailure = true := by
    rw [find, ends_bind]
    refine ends_file?.mono ?_ fun _ _ ↦ id
    rintro found t ⟨rfl, hfound⟩
    rcases found with - | p
    · rcases s.packaged? (a.stubKey c) with - | text
      · exact (ends_throw _).2 rfl
      · exact (ends_pure _).2 trivial
    · obtain ⟨folder, hfolder, rfl, hfile⟩ := hfound p rfl
      obtain ⟨n, hlocate, hn, htest⟩ := node?_of_holds hfile
      have hplace : d.resolve (folder ++ Path.ofString (a.stubKey c ++ ".stub")) =
          d.resolve folder ++ [a.stubKey c ++ ".stub"] := by
        rw [a.ofString_stub, Path.append_eq folder rfl]
        refine resolve_append _ _ _ fun hdots ↦ ?_
        have hsuffix : ".stub".toList <:+ "..".toList := by
          rw [List.mem_singleton.1 hdots, String.toList_append]
          exact List.suffix_append _ _
        exact absurd hsuffix.length_le (by decide)
      cases n with
      | dir => exact absurd htest (by decide)
      | file content =>
        have hcontent := file?_eq_some_iff.2 hn
        obtain ⟨text, htext⟩ := h folder hfolder c a content (hplace ▸ hcontent)
        exact (Run.ends_readText_of_ok (readText_eq_ok_iff.2 ⟨hlocate, content, hcontent, htext⟩)).2
          trivial
  refine Run.of_ends_resultOn (P := fun result : Except Failure String ↦
    result = .error e → e.isDiskFailure = true) (hends.mono ?_ ?_) he
  · intro _ _ _ hno
    cases hno
  · rintro e' _ he' heq
    rwa [Except.error.inj heq] at he'

end StubSource

/-- An artifact cannot be rendered without its stub, but a migration can do without one that is
missing. -/
theorem Artifact.resultOn_render_eq_error_iff {stubs : StubSource} {c : Configuration}
    {related : List String} {a : Artifact} {d : Disk} {e : Failure} :
    (a.render stubs c related).resultOn d = .error e ↔
      (stubs.find (a.stubKey c)).resultOn d = .error e ∧ (a = migration → isMissingStub e = false) := by
  refine Run.of_ends_resultOn (P := fun result : Except Failure Rendering ↦ result = .error e ↔
    (stubs.find (a.stubKey c)).resultOn d = .error e ∧ (a = migration → isMissingStub e = false)) ?_
  cases a with
  | migration =>
    rw [render, ends_bind, Run.ends_attempt]
    refine (stubs.reads_find "migration").ends (fun template log htemplate ↦ ?_)
      fun e' log he' ↦ ⟨fun hmissing ↦ ?_, fun hpresent ↦ ?_⟩
    · exact (ends_pure _).2 (by simp [stubKey, name, htemplate])
    · simp only [ends_bind, Run.ends_say, ends_pure]
      simp only [reduceCtorEq, stubKey, name, he', Except.error.injEq, false_iff]
      rintro ⟨rfl, hno⟩
      rw [hmissing] at hno
      exact absurd (hno trivial) (by simp)
    · simp only [stubKey, name, he', Except.error.injEq]
      exact ⟨fun h ↦ ⟨h, fun _ ↦ h ▸ hpresent⟩, And.left⟩
  | model | request | resource | collection | service | controller | factory | seeder =>
    rw [render, ends_bind, StubSource.render, ends_bind]
    · refine (stubs.reads_find _).ends (fun template log htemplate ↦ ?_) fun e' log he' ↦ ?_
      · rw [ends_pure, ends_pure, htemplate]
        simp
      · rw [he']
        simp
    · intro h
      cases h

/-- Without stubs of its own a project has its models made from the packaged stub. -/
theorem Artifact.resultOn_render_model {stubs : StubSource} {c : Configuration}
    {related : List String} {d : Disk} (hfolder : stubs.folder = none)
    (hdefaults : stubs.useDefaults = true) :
    (Artifact.model.render stubs c related).resultOn d =
      .ok ⟨Stub.render Stub.modelStub (Code.model c), false⟩ := by
  obtain ⟨folder, useDefaults⟩ := stubs
  subst hfolder hdefaults
  rfl

/-! ## Turns that go wrong -/

namespace Turn

variable {g : Generator} (x : Turn g)

/-- The artifact is to be written: nothing is there, or what is there may be replaced. -/
def Wanted : Prop :=
  ∃ there, x.before.isThere (g.root ++ x.path) = .ok there ∧
    (there = true → g.writer.permits x.asked x.path = true)

/-- The stub that the artifact needs is missing or cannot be read. -/
def LacksStub : Prop :=
  ∃ e, (g.stubs.find (x.task.artifact.stubKey x.task.config)).resultOn x.before = .error e ∧
    (x.task.artifact = .migration → Artifact.isMissingStub e = false)

/-- The disk refuses to write the artifact. -/
def Unwritable : Prop :=
  ∃ rendering e d, (x.task.content g.stubs).resultOn x.before = .ok rendering ∧
    (writeFile (g.root ++ x.path) (Text.encode rendering.text) true).run.run x.before = (.error e, d)

/-- Why an artifact fails: the disk does not say whether it is there, or it is to be written and its
stub is lacking or the disk refuses it. -/
def Fails : Prop :=
  (∃ e, x.before.isThere (g.root ++ x.path) = .error e) ∨ x.Wanted ∧ (x.LacksStub ∨ x.Unwritable)

variable {x}

/-- Where stubs are texts and its path can be used, a turn does not end the run, and its artifact
fails for one of the reasons that there are. -/
theorem exists_ending (hlegible : g.stubs.Legible x.before) (husable : Usable (g.root ++ x.path)) :
    ∃ status, x.ending = .ok status ∧ (status = .failed ↔ x.Fails) := by
  obtain ⟨task, path, before, asked, result, after, hlocated, htakes⟩ := x
  have hfailed {e : Failure} (he : e.isDiskFailure = true) :
      (if e.isDiskFailure then .ok .failed else .error e : Except Failure ArtifactStatus) =
        .ok .failed := if_pos he
  cases htakes with
  | @unanswered e hthere =>
    exact ⟨.failed, hfailed (Failure.isDiskFailure_disk.2 (isPlain_of_holds hthere)),
      fun _ ↦ .inl ⟨e, hthere⟩, fun _ ↦ rfl⟩
  | kept hthere hforbids =>
    refine ⟨.skipped, rfl, by simp, ?_⟩
    rintro (⟨e, he⟩ | ⟨⟨there, hthere', hpermits⟩, -⟩)
    · exact absurd (hthere.symm.trans he) (by simp)
    · obtain rfl := Except.ok.inj (hthere.symm.trans hthere')
      rw [show g.writer.permits asked path = false from hforbids] at hpermits
      exact absurd (hpermits rfl) (by simp)
  | @unrendered there e hthere hpermits hcontent =>
    have hlacks := Artifact.resultOn_render_eq_error_iff.1 hcontent
    exact ⟨.failed, hfailed (hlegible.isDiskFailure hlacks.1),
      fun _ ↦ .inr ⟨⟨there, hthere, hpermits⟩, .inl ⟨e, hlacks⟩⟩, fun _ ↦ rfl⟩
  | @refused there rendering e _ hthere hpermits hcontent hwrite =>
    have hplain := (ends_of_run_error hwrite).1 husable.failsPlainly_writeFile
    exact ⟨.failed, hfailed (Failure.isDiskFailure_disk.2 hplain),
      fun _ ↦ .inr ⟨⟨there, hthere, hpermits⟩, .inr ⟨rendering, e, after, hcontent, hwrite⟩⟩, fun _ ↦ rfl⟩
  | @placed there rendering _ hthere hpermits hcontent hwrite =>
    refine ⟨if there then .replaced else .created, rfl, fun h ↦ ?_, ?_⟩
    · exact absurd h (by split <;> simp)
    rintro (⟨e, he⟩ | ⟨-, ⟨e, hlacks⟩ | ⟨rendering', e, d'', hcontent', hwrite'⟩⟩)
    · exact absurd (hthere.symm.trans he) (by simp)
    · exact absurd (hcontent.symm.trans (Artifact.resultOn_render_eq_error_iff.2 hlacks)) (by simp)
    · obtain rfl := Except.ok.inj (hcontent.symm.trans hcontent')
      cases hwrite.symm.trans hwrite'

end Turn

/-! ## What a run leaves alone -/

/-- No file of a session and no artifact has the name of a stub. -/
theorem endsWith_stub_of_php {name : String} (h : Text.endsWith name ".php" = true) :
    Text.endsWith name ".stub" = false := by
  rw [Bool.eq_false_iff, ne_eq, endsWith_iff]
  intro hstub
  have hsuffix := List.suffix_of_suffix_length_le (endsWith_iff.1 h) hstub (by decide)
  revert hsuffix
  decide

theorem endsWith_stub_of_isStored {name : String} (h : BackupStore.IsStored name) :
    Text.endsWith name ".stub" = false := by
  rcases h with h | rfl
  · exact endsWith_stub_of_php h
  · decide

theorem Path.IsTarget.exists_place {o : Path} (ho : o.IsTarget) (d : Disk) (root : Path) :
    ∃ l name, d.resolve (root ++ o) = l ++ [name] ∧ Text.endsWith name ".php" = true := by
  rw [ho.resolve_eq]
  obtain ⟨dirs, file, rfl, -, -, hphp, -⟩ := ho
  exact ⟨_, file, (List.append_assoc _ _ _).symm, hphp⟩

namespace Generator

variable {g : Generator} {cs : List Configuration} {d d' : Disk} {r : Report}

theorem legible_of_frame (h : g.stubs.Legible d) (hframe : g.store.Frame d d') :
    g.stubs.Legible d' := by
  refine h.of_grows hframe ?_
  rintro l key ⟨-, -, -, name, hlast, hstored⟩
  rw [List.getLast?_concat] at hlast
  obtain rfl := Option.some.inj hlast
  exact endsWith_stub_of_isStored hstored

end Generator

/-- The route file is no artifact. -/
theorem Artifact.LiesAt.place_ne {g : Generator} {a : Artifact} {c : Configuration} {p : Path}
    (h : a.LiesAt c p) (hroute : g.routes.root = g.root)
    (hword : c.studly = "" ∨ IsWord c.studly) (hp : p.IsTarget) (d : Disk) :
    g.routes.place d ≠ d.resolve (g.root ++ p) := by
  intro hplace
  obtain ⟨file, hfile, hcopy⟩ := copyOf_routes g.routes.api
  rw [RouteFile.place, RouteFile.path, hroute, hfile, hcopy.original.resolve_eq, hp.resolve_eq,
    List.append_cancel_left_eq] at hplace
  have hhead := h.head hword
  rw [← hplace] at hhead
  simp at hhead

/-- The turns of a run leave the stubs and the route file alone. -/
theorem Leads.legible {g : Generator} {xs : List (Turn g)} {d d' : Disk} {asked asked' : List String}
    (h : Leads g xs d asked d' asked') (hwf : d.WellFormed) (hroute : g.routes.root = g.root)
    (hwords : ∀ x ∈ xs, x.task.config.studly = "" ∨ IsWord x.task.config.studly)
    (hstubs : g.stubs.Legible d) (hroutes : g.routes.Legible d) :
    g.routes.Legible d' ∧ ∀ x ∈ xs, g.stubs.Legible x.before := by
  obtain ⟨hgrows, hpaths⟩ := h.grows hwf g.spelled_root hwords
  refine ⟨hroutes.of_same (hgrows.resolve_eq _) (hgrows.same _ ?_), ?_⟩
  · rintro ⟨x, hx, -, hplace⟩
    obtain ⟨-, hcwd, hpath⟩ := hpaths x hx
    rw [Turn.place, resolve_congr hcwd] at hplace
    exact (Task.liesAt x.located).place_ne hroute (hwords x hx) hpath d hplace
  · have hstep (x : Turn g) (hx : x ∈ xs)
        (hbefore : x.before.WellFormed ∧ g.stubs.Legible x.before) :
        x.after.WellFormed ∧ g.stubs.Legible x.after := by
      have hpath := (hpaths x hx).2.2
      have hturn := (x.grows hbefore.1 g.spelled_root hpath).1
      refine ⟨hturn.wellFormed, hbefore.2.of_grows hturn ?_⟩
      rintro l key ⟨-, hplace⟩
      obtain ⟨l', name, hname, hphp⟩ := hpath.exists_place x.before g.root
      obtain ⟨-, hkey⟩ := List.append_inj' (hplace.trans hname) rfl
      rw [List.singleton_inj.1 hkey]
      exact endsWith_stub_of_php hphp
    exact fun x hx ↦ ((h.invariant (fun d ↦ d.WellFormed ∧ g.stubs.Legible d) ⟨hwf, hstubs⟩ hstep).2 x hx).2

namespace Generator

variable {g : Generator} {schema : Schema} {cs : List Configuration} {memory : Memory} {r : Report}
  {s t : Scene} {d : Disk}

/-- In an anchored project a backup neither makes nor changes what could be an artifact or the route
file. -/
theorem BacksUp.file?_eq (h : g.BacksUp cs r s.disk d) (hwf : s.disk.WellFormed)
    (hanchor : s.disk.Anchored g.root) {o : Path} (ho : o.IsTarget) :
    d.file? (s.disk.resolve (g.root ++ o)) = s.disk.file? (s.disk.resolve (g.root ++ o)) := by
  have hframe := h.frame hwf
  by_cases hsome : (s.disk.file? (s.disk.resolve (g.root ++ o))).isSome
  · refine hframe.same _ ?_
    rintro ⟨hnone, -⟩
    rw [hnone] at hsome
    cases hsome
  · cases h with
    | off => rfl
    | @made m session d₀ _ hbackup hreport hopens hmade =>
      rw [Option.not_isSome_iff_eq_none] at hsome
      rw [hsome, ← Option.not_isSome_iff_eq_none]
      intro hnew
      obtain ⟨content, hcontent⟩ := Option.isSome_iff_exists.1 hnew
      rw [ho.resolve_eq] at hcontent hsome
      rw [file?_eq_some_iff] at hcontent
      -- Something stood there when the session was opened, and it was no file, so it stays.
      have hstood := (hmade.isSome_iff (hopens.anchored hanchor) o ho).1 (by
        change (d.node? (d₀.resolve g.root ++ o.parts)).isSome
        rw [hopens.resolve_eq, hcontent]
        rfl)
      change (d₀.node? (d₀.resolve g.root ++ o.parts)).isSome at hstood
      rw [hopens.resolve_eq] at hstood
      obtain ⟨n, hn⟩ := Option.isSome_iff_exists.1 hstood
      cases n with
      | dir =>
        rw [hmade.grows.keeps _ hn] at hcontent
        cases hcontent
      | file content' =>
        rw [← hopens.same _ id, file?_eq_some_iff.2 hn] at hsome
        cases hsome

/-! ## What a run needs -/

/-- What a run over a number of entities needs to come to its end: a root under which everything can
be asked about and made, a directory of backups that can be made, a calendar that lasts, and stubs
and routes that are texts. -/
structure Workable (g : Generator) (entities : Nat) (d : Disk) : Prop where
  anchored : d.Anchored g.root
  askable : pathFault? (g.root ++ Migration.folder) = none
  short : ∀ part ∈ g.root.parts, isTooLong part = false
  roomy : g.root.parts.length + 5 ≤ deepest
  folder : g.settings.backup = true → Usable g.store.folder
  calendar : ∀ i < entities, (g.moment.plus? i).isSome
  stubs : g.stubs.Legible d
  routes : g.routes.Legible d

variable {n : Nat}

theorem Workable.usable (h : g.Workable n d) {o : Path} (ho : o.slashes = 0) (hclean : Clean o)
    (hshort : o.parts.length ≤ 5) : Usable (g.root ++ o) := by
  have hroot := Clean.of_pathFault? h.askable
  rw [Path.append_eq g.root (show Migration.folder.slashes = 0 from rfl)] at hroot
  rw [Path.append_eq g.root ho]
  refine ⟨List.forall_mem_append.2 ⟨fun part hpart ↦ hroot part (List.mem_append_left _ hpart),
    hclean⟩, ?_⟩
  rw [List.length_append]
  exact (Nat.add_le_add_left hshort _).trans h.roomy

theorem Workable.not_refuses (h : g.Workable n d) (d' : Disk) :
    ¬d'.Refuses (g.root ++ Migration.folder) := by
  refine not_refuses_of_short h.askable ?_
  rw [Path.append_eq g.root (show Migration.folder.slashes = 0 from rfl)]
  exact List.forall_mem_append.2 ⟨h.short, by decide⟩

/-- The path of an artifact is always worked out. -/
theorem Workable.pathOn_ne_error (h : g.Workable n d) (d' : Disk) (x : Task) (fault : DiskError) :
    x.pathOn g.root d' ≠ .error fault := by
  intro hpath
  exact h.not_refuses d' (Task.refuses_of_pathOn hpath).1

/-- The turns of a run that has what it needs do not end it, and they leave the route file a text. -/
theorem Workable.exists_ending (h : g.Workable n s.disk) (hwf : s.disk.WellFormed)
    (hroute : g.routes.root = g.root) {d₁ d₂ : Disk} {xs : List (Turn g)} {asked asked' : List String}
    (hbackup : g.BacksUp cs r s.disk d₁) (hleads : Leads g xs d₁ asked d₂ asked')
    (hwords : ∀ x ∈ xs, x.task.config.studly = "" ∨ IsWord x.task.config.studly) :
    g.routes.Legible d₂ ∧ ∀ x ∈ xs, ∃ status, x.ending = .ok status ∧ (status = .failed ↔ x.Fails) := by
  have hframe := hbackup.frame hwf
  have hroutes : g.routes.Legible d₁ := by
    refine h.routes.of_same (hframe.resolve_eq _) ?_
    have hpath : g.routes.path = g.root ++ Path.ofString (RouteFile.relativePath g.routes.api) := by
      rw [RouteFile.path, hroute]
    rw [RouteFile.place, hpath]
    exact hbackup.file?_eq hwf h.anchored (RouteFile.isTarget_relativePath _)
  obtain ⟨hlegible, hstubs⟩ := hleads.legible hframe.wellFormed hroute hwords
    (legible_of_frame h.stubs hframe) hroutes
  obtain ⟨-, hpaths⟩ := hleads.grows hframe.wellFormed g.spelled_root hwords
  refine ⟨hlegible, fun x hx ↦ Turn.exists_ending (hstubs x hx) ?_⟩
  obtain ⟨hbefore, -, hpath⟩ := hpaths x hx
  obtain ⟨hclean, hshort⟩ := Task.clean hbefore (hwords x hx) x.located
  exact h.usable hpath.slashes hclean hshort

/-- A run that has what it needs does not break off. -/
theorem Breaks.not_workable {e : Failure} (h : Breaks g schema cs s e t) (hwf : s.disk.WellFormed)
    (hbuilt : Configuration.Built schema cs memory) (hroute : g.routes.root = g.root) :
    ¬g.Workable cs.length s.disk := by
  intro hwork
  cases h with
  | backup hbackup hasked hadds hfolder =>
    obtain ⟨hclean, hshort⟩ := hwork.folder hbackup
    exact hfolder hclean ((missingFrom_le_length _ _ _).trans hshort)
  | @artifact d₁ xs r₁ hbackup hleads hbreaks =>
    have hwords := hbuilt.words_of_turns hbreaks.exists_plans
    obtain ⟨-, hending⟩ := hwork.exists_ending hwf hroute hbackup hleads hwords
    rcases hbreaks.reason with ⟨i, hi, hend⟩ | ⟨x, -, fault, hpath⟩ | ⟨x, hx, hfails⟩
    · have := hwork.calendar i hi
      rw [hend] at this
      cases this
    · exact hwork.pathOn_ne_error t.disk x fault hpath
    · obtain ⟨status, hstatus, -⟩ := hending x hx
      rw [hfails] at hstatus
      cases hstatus
  | @route d₁ d₂ xs r₁ hbackup hplans hleads hroutes hlacks hfile =>
    have hwords := hbuilt.words_of_turns hplans.isPrefix
    obtain ⟨hlegible, -⟩ := hwork.exists_ending hwf hroute hbackup hleads hwords
    refine hfile hlegible ?_
    obtain ⟨file, hpath, hcopy⟩ := copyOf_routes g.routes.api
    rw [RouteFile.path, hroute]
    refine hwork.usable (RouteFile.isTarget_relativePath _).slashes ?_ ?_
    · change ∀ part ∈ (Path.ofString (RouteFile.relativePath g.routes.api)).parts,
        '\x00' ∉ part.toList
      cases g.routes.api <;> decide
    · rw [hpath]
      simp

/-! ## The report of a run -/

/-- A run that was not stopped by its backup has dealt with everything: `xs` are its turns. -/
structure Completes (g : Generator) (cs : List Configuration) (xs : List (Turn g)) (d : Disk)
    (asked : List String) (r : Report) (t : Scene) : Prop where
  /-- Every enabled artifact of every entity had its turn, in the order of generation. -/
  order : xs.map (fun x ↦ (x.task.config, x.task.artifact)) = enabledArtifacts cs
  turns : ∃ d₁ d₂, g.store.Frame d d₁ ∧ Leads g xs d₁ asked d₂ t.asked ∧
    Grows everywhere (· = g.routes.place d₂) d₂ t.disk
  /-- The report tells of each, and those have failed that had a reason to. -/
  outcomes : List.Forall₂ (fun x o ↦ o.entity = x.task.config.studly ∧
    o.artifact = x.task.artifact.name ∧ o.path = x.path.toString ∧
      (o.status = .failed ↔ x.Fails)) xs r.outcomes
  /-- Every route was registered or counts as an error. -/
  routes : ∃ results, List.Forall₂ (fun c result ↦ ∀ x ∈ result, x.line = c.route g.routes.api ∧
      g.routes.Holds (c.route g.routes.api) t.disk) (routed cs) results ∧
    r.routes = results.reduceOption ∧
      (r.generationErrors = [] ↔ (∀ x ∈ xs, ¬x.Fails) ∧ none ∉ results)

theorem Reports.completes (h : Reports g schema cs s r t) (hwf : s.disk.WellFormed)
    (hbuilt : Configuration.Built schema cs memory) (hroute : g.routes.root = g.root)
    (hwork : g.Workable n s.disk) :
    r.backupErrors ≠ [] ∧ r.outcomes = [] ∨
      r.backupErrors = [] ∧ ∃ xs, Completes g cs xs s.disk s.asked r t := by
  cases h with
  | unready hbackup herrors houtcomes => exact .inl ⟨herrors, houtcomes⟩
  | @complete d₁ d₂ xs os results hbackup hplans hleads htells hroutes hresults hvalidation hready
      hheld houtcomes hregistered herrors =>
    have hwords := hbuilt.words_of_turns hplans.isPrefix
    obtain ⟨-, hending⟩ := hwork.exists_ending hwf hroute hbackup hleads hwords
    have hboth := (List.forall₂_and_left _ _).2 ⟨hending, htells⟩
    have htold : List.Forall₂ (fun x o ↦ o.entity = x.task.config.studly ∧
        o.artifact = x.task.artifact.name ∧ o.path = x.path.toString ∧
          (o.status = .failed ↔ x.Fails)) xs os := by
      refine hboth.imp ?_
      rintro x o ⟨⟨status, hstatus, hfails⟩, status', hstatus', htold⟩
      obtain rfl := Except.ok.inj (hstatus.symm.trans hstatus')
      exact ⟨htold.entity, htold.artifact, htold.path, htold.status ▸ hfails⟩
    have hkeeps := hroutes.mono (fun _ _ ↦ trivial) fun _ ↦ id
    refine .inr ⟨hready, xs, hplans.enabled_eq, ⟨d₁, d₂, hbackup.frame hwf, hleads, hkeeps⟩,
      houtcomes ▸ htold, results, hresults, hregistered, herrors.trans (and_congr_left' ?_)⟩
    constructor
    · intro hnone x hx hfails
      obtain ⟨o, ho, -, -, -, hfailed⟩ := exists_of_forall₂_of_mem_right htold.flip hx
      exact hnone o ho (hfailed.2 hfails)
    · intro hnone o ho hfailed
      obtain ⟨x, hx, -, -, -, hfails⟩ := exists_of_forall₂_of_mem_right htold ho
      exact hnone x hx (hfails.1 hfailed)

/-- A run that has what it needs comes to its report. -/
theorem ends_generate_reports {raw : Value} (haccepted : schema.Accepted raw)
    (hbuilt : (Configuration.buildAll schema).run.run Memory.empty = (.ok cs, memory))
    (hwf : s.disk.WellFormed) (hroute : g.routes.root = g.root)
    (hwork : g.Workable schema.length s.disk) :
    Ends (g.generate raw) s (fun r t ↦ ∃ log, Reports g schema cs { s with log } r t)
      fun _ _ ↦ False := by
  have hbuilt' := Configuration.built haccepted hbuilt
  have hlength : schema.length = cs.length := by
    simpa using (congrArg List.length hbuilt'.studly).symm
  rw [hlength] at hwork
  refine ends_generate haccepted (fun cs' memory' r₀ log hrun hfresh _ ↦ ?_) ?_
  · obtain ⟨hcs, rfl⟩ := Prod.mk.inj (hbuilt.symm.trans hrun)
    obtain rfl := Except.ok.inj hcs
    exact (ends_process (s := { s with log }) hwf (hroute ▸ g.spelled_root) hbuilt' hfresh).mono
      (fun _ _ hreports ↦ ⟨log, hreports⟩)
      fun _ _ hbreaks ↦ hbreaks.not_workable hwf hbuilt' hroute hwork
  · rintro e log (hnul | hno)
    · have hroot := Clean.of_pathFault? hwork.askable
      rw [Path.append_eq g.root (show Migration.folder.slashes = 0 from rfl)] at hroot
      exact absurd hnul (clean_iff.1 fun part hpart ↦ hroot part (List.mem_append_left _ hpart))
    · exact hno ⟨cs, memory, hbuilt⟩

/-- A run that has what it needs ends in a report: its backup failed, or everything was dealt
with. -/
theorem ends_generate_of_workable {raw : Value} (haccepted : schema.Accepted raw)
    (hbuilt : (Configuration.buildAll schema).run.run Memory.empty = (.ok cs, memory))
    (hwf : s.disk.WellFormed) (hroute : g.routes.root = g.root)
    (hwork : g.Workable schema.length s.disk) :
    Ends (g.generate raw) s
      (fun r t ↦ r.backupErrors ≠ [] ∧ r.outcomes = [] ∨
        r.backupErrors = [] ∧ ∃ xs, Completes g cs xs s.disk s.asked r t)
      fun _ _ ↦ False :=
  (ends_generate_reports haccepted hbuilt hwf hroute hwork).mono
    (fun _ _ ⟨log, hreports⟩ ↦ hreports.completes (s := { s with log }) hwf
      (Configuration.built haccepted hbuilt) hroute hwork)
    fun _ _ ↦ id

/-- A run over the small project ends in a report that tells of its one artifact. -/
theorem smallProject_ends :
    Ends ((ofSettings (SmallProject.settings .skip) none SmallProject.moment).generate
        (.map SmallProject.entries)) SmallProject.scene
      (fun r _ ↦ r.backupErrors ≠ [] ∨
        r.outcomes.map (fun o ↦ (o.entity, o.artifact)) = [("Post", "model")])
      fun _ _ ↦ False := by
  obtain ⟨cs, memory, hbuilt, henabled, -⟩ := SmallProject.exists_built
  have hwork : (ofSettings (SmallProject.settings .skip) none SmallProject.moment).Workable
      SmallProject.schema.length SmallProject.disk := by
    refine ⟨anchoredFrom_of_plain _ _ (by decide), by decide, by decide, by decide, ?_, by decide,
      ?_, ?_⟩
    · intro hbackup
      cases hbackup
    · intro folder hfolder
      cases hfolder
    · intro content hcontent
      cases hcontent
  refine (ends_generate_of_workable SmallProject.accepted hbuilt (by decide) rfl hwork).mono ?_
    fun _ _ ↦ id
  rintro r t (⟨herrors, -⟩ | ⟨-, xs, hcompletes⟩)
  · exact .inl herrors
  · have hname := congrArg (List.map fun x : String × Artifact ↦ (x.1, x.2.name)) henabled
    rw [← hcompletes.order, List.map_map, List.map_map] at hname
    refine .inr (Eq.trans ?_ hname)
    refine map_eq_map_of_forall₂ (hcompletes.outcomes.flip.imp ?_)
    rintro o x ⟨hentity, hartifact, -⟩
    simp [hentity, hartifact]

end Generator

end Scaffold
