import Scaffold.Proofs.Backup.Recovery

/-!
# What a manifest says of copies that failed

A backup looks at the paths of all artifacts and at the oldest migration of every table. Of what
stands there it has a copy, or its manifest has a line about the artifact. Of the route file it only
says that the file was there: a copy of it that failed is not among the errors.
-/

namespace Scaffold

/-- What is said about a failed operation is never empty. -/
theorem DiskError.message_ne (e : DiskError) : e.message ≠ "" := by
  obtain ⟨fault, path⟩ := e
  intro h
  replace h := congrArg String.toList h
  cases fault <;> simp [message, DiskFault.entry?] at h

/-- What was there and was not copied has a reason. -/
def BackupEntry.Told (e : BackupEntry) : Prop :=
  e.existed = true → e.backedUp = false → ∃ message, message ≠ "" ∧ e.error = .text message

/-- The reason that an entry has is among the errors of its manifest. -/
theorem BackupManifest.mem_errors {m : BackupManifest} {entity artifact message : String}
    {e : BackupEntry} (he : (.text entity, .text artifact, e) ∈ m.entries)
    (hmessage : message ≠ "") (herror : e.error = .text message) :
    s!"{entity}.{artifact}: {message}" ∈ m.errors := by
  have hfalsy : (Value.text message).isFalsy = false := by simpa [Value.isFalsy] using hmessage
  rw [errors, List.mem_filterMap]
  refine ⟨_, he, ?_⟩
  simp only [herror, hfalsy, Bool.false_eq_true, if_false, Value.plain]
  rfl

namespace BackupStore

open Disk DiskOp

variable {b : BackupStore} {session : Path} {m : BackupManifest} {d d₀ d' : Disk} {o : Path}
  {a : Artifact} {c : Configuration} {cs : List Configuration} {e : BackupEntry} {s : Scene}

/-! ## Reasons -/

theorem ends_backupFile_told (entity : String) :
    Ends (b.backupFile session a entity o) s (fun e _ ↦ e.Told) fun _ _ ↦ True := by
  rw [backupFile, ends_bind, Run.ends_query]
  refine ⟨fun there _ ↦ ?_, fun _ _ ↦ trivial⟩
  cases there with
  | false => exact (ends_pure _).2 fun hexisted ↦ by cases hexisted
  | true =>
    simp only [Bool.not_true, Bool.false_eq_true, if_false]
    rw [ends_bind, Run.ends_attempt, Run.ends_onDisk]
    refine (ends_any _ _).mono (fun _ _ _ ↦ ?_) fun e _ _ ↦ ⟨fun _ ↦ ?_, fun _ ↦ trivial⟩
    · simp only [ends_bind, Run.ends_say, ends_pure]
      exact fun _ hcopy ↦ by cases hcopy
    · simp only [ends_bind, Run.ends_say, ends_pure]
      exact fun _ _ ↦ ⟨_, e.message_ne, rfl⟩

theorem ends_backupArtifact_told (a : Artifact) :
    Ends (b.backupArtifact session c a) s (fun x _ ↦ x.1 = .text a.name ∧ x.2.Told)
      fun _ _ ↦ True := by
  rw [backupArtifact]
  split
  · exact (ends_backupFile_told _).bind fun _ _ htold ↦ (ends_pure _).2 ⟨rfl, htold⟩
  · rw [ends_bind, Run.ends_query]
    refine ⟨fun names _ ↦ ?_, fun _ _ ↦ trivial⟩
    cases names with
    | nil => exact (ends_pure _).2 ⟨rfl, fun hexisted ↦ by cases hexisted⟩
    | cons file rest =>
      exact (ends_backupFile_told _).bind fun _ _ htold ↦ (ends_pure _).2 ⟨rfl, htold⟩

/-- Every entry of a manifest is about an artifact of one of the entities, and it has a reason if it
needs one. -/
def ToldAll (cs : List Configuration) (m : BackupManifest) : Prop :=
  ∀ x ∈ m.entries, (∃ c ∈ cs, x.1 = .text c.studly) ∧ (∃ a : Artifact, x.2.1 = .text a.name) ∧
    x.2.2.Told

theorem ends_backupEntities_told :
    Ends (b.backupEntities session cs) s
      (fun entities _ ↦ ∀ x ∈ entities, (∃ c ∈ cs, x.1 = .text c.studly) ∧
        ∀ y ∈ x.2, (∃ a : Artifact, y.1 = .text a.name) ∧ y.2.Told)
      fun _ _ ↦ True := by
  have hentity (c : Configuration) (t : Scene) : Ends (b.backupEntity session c) t
      (fun xs _ ↦ List.Forall₂ (fun a x ↦ x.1 = .text a.name ∧ x.2.Told) Artifact.backupOrder xs ∧
        True) fun _ _ ↦ True :=
    Ends.mapM trivial fun a _ u _ ↦ (ends_backupArtifact_told a).mono
      (fun _ _ htold ↦ ⟨htold, trivial⟩) fun _ _ ↦ id
  have hall : Ends (cs.mapM fun c ↦ do return (c.studly, ← b.backupEntity session c)) s
      (fun found _ ↦ List.Forall₂ (fun c x ↦ x.1 = c.studly ∧
        ∀ y ∈ x.2, (∃ a : Artifact, y.1 = .text a.name) ∧ y.2.Told) cs found ∧ True)
      fun _ _ ↦ True := by
    refine Ends.mapM trivial fun c _ t _ ↦ (hentity c t).bind ?_
    rintro xs u ⟨hxs, -⟩
    refine (ends_pure _).2 ⟨⟨rfl, fun y hy ↦ ?_⟩, trivial⟩
    obtain ⟨a, -, hname, htold⟩ := exists_of_forall₂_of_mem_right hxs hy
    exact ⟨⟨a, hname⟩, htold⟩
  rw [backupEntities]
  apply hall.bind
  rintro found t ⟨hfound, -⟩
  rw [ends_pure]
  intro x hx
  obtain ⟨y, hy, rfl⟩ := List.mem_map.1 hx
  obtain ⟨c, hc, hname, htold⟩ :=
    exists_of_forall₂_of_mem_right hfound (Entries.mem_of_mem_ofList hy)
  exact ⟨⟨c, hc, congrArg Value.text hname⟩, htold⟩

/-- Whatever a backup could not copy, it has a reason for it. -/
theorem ends_create_told (b : BackupStore) (cs : List Configuration) (moment : Moment) (s : Scene) :
    Ends (b.create cs moment) s (fun m _ ↦ ToldAll cs m) fun _ _ ↦ True := by
  rw [create, ends_bind, ends_get, ends_bind]
  refine (ends_any _ _).mono (fun _ t _ ↦ ?_) fun _ _ _ ↦ trivial
  refine (ends_any _ _).bind fun _ t₁ _ ↦ ends_backupEntities_told.bind fun entities t₂ htold ↦
    (ends_any _ _).bind fun _ t₃ _ ↦ (ends_any _ _).bind fun _ t₄ _ ↦ ?_
  simp only [ends_bind, Run.ends_say, ends_pure]
  intro x hx
  obtain ⟨entity, hentity, hx⟩ := List.mem_flatMap.1 hx
  obtain ⟨y, hy, rfl⟩ := List.mem_map.1 hx
  obtain ⟨hname, hall⟩ := htold entity hentity
  exact ⟨hname, hall y hy⟩

theorem ToldAll.exists_eq_of_mem_errors (h : ToldAll cs m) {line : String} (hline : line ∈ m.errors) :
    ∃ c ∈ cs, ∃ (a : Artifact) (message : String), line = s!"{c.studly}.{a.name}: {message}" := by
  obtain ⟨x, hx, hsome⟩ := List.mem_filterMap.1 hline
  obtain ⟨⟨c, hc, hentity⟩, ⟨a, hartifact⟩, -⟩ := h x hx
  refine ⟨c, hc, a, x.2.2.error.plain, ?_⟩
  simp only [hentity, hartifact, Value.plain] at hsome
  split at hsome
  · cases hsome
  · exact (Option.some.inj hsome).symm

/-! ## Copies -/

/-- The copy of a file is in the session, with the bytes that the file had. -/
def HasCopy (b : BackupStore) (m : BackupManifest) (d d' : Disk) (o : Path) (copy : Value) : Prop :=
  ∃ c content, copy = .text (Path.toString c) ∧ d.readBytes (b.root ++ o) = .ok content ∧
    d'.readBytes (b.folder.child m.timestamp ++ c) = .ok content

theorem anchored_root_of_isThere (ho : o.IsTarget) (h : d.isThere (b.root ++ o) = .ok true) :
    d.Anchored b.root := by
  have hanchor := anchored_of_locate (isThere_eq_true_iff.1 h).1
  rw [ho.append_eq] at hanchor
  exact ((anchoredFrom_append _ _ _ _).1 hanchor).1

theorem Made.readBytes_copy (h : Made b cs session m d₀ d') {c : Path} (hc : c.CopyOf o)
    (hcopy : e.copy = .text c.toString) (he : e ∈ m.tracked) (hanchor : d₀.Anchored b.root)
    (hfault : pathFault? (session ++ c) = none) {content : ByteArray}
    (hcontent : d₀.file? (d₀.resolve b.root ++ o.parts) = some content) :
    d'.readBytes (session ++ c) = .ok content := by
  have hplace : d'.resolve (session ++ c) = d₀.resolve session ++ c.parts := by
    rw [hc.copy.resolve_eq, h.grows.resolve_eq]
  have hstored := (h.entered e he).stored c hc.copy hcopy
  have hfile : d'.file? (d'.resolve (session ++ c)) = some content := by
    rw [hplace]
    rcases h.held hanchor o c hc with hnone | hsame
    · rw [hnone] at hstored
      cases hstored
    · rw [hsame, hcontent]
  have hlocate := h.grows.locate_eq_ok (isDir_eq_true_iff.1 h.new.isDir).1
  refine readBytes_eq_ok_iff.2 ⟨?_, hfile⟩
  rw [locate_eq_walk hfault]
  refine h.grows.wellFormed.walk_eq_ok (hc.copy.anchored (anchored_of_locate hlocate)) ?_
  rw [← resolve_eq_follow, file?_eq_some_iff.1 hfile]
  rfl

/-- Of what stands at the path of an entry there is a copy, or the entry says that there is none. -/
theorem Made.hasCopy_or_left {dirs : Location → Prop} (h : Made b cs session m d₀ d')
    (hopens : Changes dirs nowhere d d₀) (he : e ∈ m.tracked) (ho : o.IsTarget)
    (horiginal : e.original = .text o.toString) (hthere : d.isThere (b.root ++ o) = .ok true) :
    e.existed = true ∧
      (e.backedUp = true ∧ HasCopy b m d d' o e.copy ∨ e.backedUp = false ∧ e.copy = .null) := by
  obtain ⟨hlocate, hsome⟩ := isThere_eq_true_iff.1 hthere
  have hanchor := hopens.anchored (anchored_root_of_isThere ho hthere)
  have hpath {o' : Path} (ho' : o'.IsTarget) (heq : Value.text o'.toString = .text o.toString) :
      o' = o := by
    rw [← ho'.ofString_toString, Value.text.inj heq, ho.ofString_toString]
  have hknows := (h.entered e he).knows hanchor
  cases hknows with
  | absent ho' hnone hopen =>
    obtain rfl := hpath ho' horiginal
    rw [ho.resolve_eq, ← hopens.resolve_eq, hopens.node?_eq_none hnone] at hsome
    cases hsome
  | @kept o' c hc hfile hfault hcopy =>
    obtain rfl := hpath hc.original horiginal
    obtain ⟨content, hcontent⟩ := Option.isSome_iff_exists.1 hfile
    refine ⟨rfl, .inl ⟨rfl, c, content, rfl, readBytes_eq_ok_iff.2 ⟨hlocate, ?_⟩, ?_⟩⟩
    · rw [ho.resolve_eq, ← hopens.resolve_eq, ← hopens.same _ id, hcontent]
    · rw [← h.session_eq.1]
      exact h.readBytes_copy hc rfl he hanchor hcopy hcontent
  | left ho' herror => exact ⟨rfl, .inr ⟨rfl, rfl⟩⟩
  | fits htable hnone hopen => cases horiginal

/-! ## Candidates -/

/-- The path at which a backup looks for an artifact: its own, or that of the oldest migration. -/
inductive Candidate (b : BackupStore) (d : Disk) (c : Configuration) : Artifact → Path → Prop
  | fixed {a : Artifact} {o : Path} (ho : a.fixedPath? c = some o) : Candidate b d c a o
  | oldest {name : String} {rest : List String}
      (h : Migration.existing d b.root c.table = .ok (name :: rest)) :
      Candidate b d c .migration (Migration.folder.child name)

theorem Candidate.isTarget (h : Candidate b d c a o) (hwf : d.WellFormed)
    (hword : c.studly = "" ∨ IsWord c.studly) : o.IsTarget := by
  cases h with
  | fixed ho => exact (Artifact.copyOf_fixedPath? hword ho).original
  | oldest h =>
    obtain ⟨-, hsome, hend⟩ := Migration.mem_existing h List.mem_cons_self
    obtain ⟨n, hn⟩ := Option.isSome_iff_exists.1 hsome
    exact Migration.isTarget_child (Migration.endsWith_php hend) (hwf.parent _ _ _ hn).2.noSlash

/-- A directory that came with the session cannot be copied. -/
theorem Made.left_of_new {dirs : Location → Prop} {name : String} (h : Made b cs session m d₀ d')
    (hopens : Changes dirs nowhere d d₀) (hanchor : d₀.Anchored b.root) (he : e ∈ m.tracked)
    (hphp : Text.endsWith name ".php" = true)
    (horiginal : e.original = .text (Migration.folder.child name).toString)
    (hsome : (d₀.node? (d₀.resolve (b.root ++ Migration.folder) ++ [name])).isSome)
    (hnew : d.node? (d₀.resolve (b.root ++ Migration.folder) ++ [name]) = none) :
    e.existed = true ∧ e.backedUp = false := by
  obtain ⟨n, hn⟩ := Option.isSome_iff_exists.1 hsome
  have ho := Migration.isTarget_child hphp (h.new.wellFormed.parent _ _ _ hn).2.noSlash
  have hpath {o' : Path} (ho' : o'.IsTarget)
      (heq : Value.text o'.toString = .text (Migration.folder.child name).toString) :
      d₀.resolve b.root ++ o'.parts = d₀.resolve (b.root ++ Migration.folder) ++ [name] := by
    rw [Migration.resolve_child, ← ho'.ofString_toString, Value.text.inj heq, ho.ofString_toString]
  have hknows := (h.entered e he).knows hanchor
  cases hknows with
  | absent ho' hnone hopen =>
    rw [hpath ho' horiginal] at hnone
    rw [hnone] at hsome
    cases hsome
  | kept hc hfile hfault hcopy =>
    rw [hpath hc.original horiginal, hopens.same _ id, file?_eq_none_iff.2 (.inl hnew)] at hfile
    cases hfile
  | left ho' herror => exact ⟨rfl, rfl⟩
  | fits htable hnone hopen => cases horiginal

/-- An entry about a candidate has a copy of it, or says that there is none. -/
theorem Made.exists_entry {dirs : Location → Prop} (h : Made b cs session m d₀ d')
    (hopens : Changes dirs nowhere d d₀) (hwf : d.WellFormed)
    (hword : c.studly = "" ∨ IsWord c.studly) (hc : c ∈ cs) (hcandidate : Candidate b d c a o)
    (hthere : d.isThere (b.root ++ o) = .ok true) :
    ∃ e, (.text c.studly, .text a.name, e) ∈ m.entries ∧ e.existed = true ∧
      (e.backedUp = true ∧ HasCopy b m d d' o e.copy ∨ e.backedUp = false) := by
  have ho := hcandidate.isTarget hwf hword
  have hanchor := hopens.anchored (anchored_root_of_isThere ho hthere)
  obtain ⟨e, he, hcovers⟩ := h.listed hanchor c hc a
  have htracked : e ∈ m.tracked := List.mem_append_left _ (List.mem_map_of_mem he)
  refine ⟨e, he, ?_⟩
  have hown (horiginal : e.original = .text o.toString) : e.existed = true ∧
      (e.backedUp = true ∧ HasCopy b m d d' o e.copy ∨ e.backedUp = false) :=
    (h.hasCopy_or_left hopens htracked ho horiginal hthere).imp_right (.imp_right And.left)
  cases hcandidate with
  | fixed hfixed =>
    cases hcovers with
    | fixed hfixed' horiginal =>
      obtain rfl := Option.some.inj (hfixed.symm.trans hfixed')
      exact hown horiginal
    | oldest ha => subst ha; cases hfixed
    | pattern ha => subst ha; cases hfixed
  | @oldest name rest hnames =>
    obtain ⟨-, hname, hend⟩ := Migration.mem_existing hnames List.mem_cons_self
    have hstood : (d₀.node? (d₀.resolve (b.root ++ Migration.folder) ++ [name])).isSome := by
      rw [hopens.resolve_eq]
      exact (hopens.grows fun _ ↦ False.elim).isSome hname
    cases hcovers with
    | fixed hfixed => cases hfixed
    | @oldest other ha horiginal hend' hsome hleast =>
      rcases eq_or_ne other name with rfl | hne
      · exact hown horiginal
      -- An older one than the oldest came with the session, as a directory.
      · refine (h.left_of_new hopens hanchor htracked (Migration.endsWith_php hend') horiginal
          hsome ?_).imp_right .inr
        by_contra hold
        rw [← ne_eq, Option.ne_none_iff_isSome, hopens.resolve_eq] at hold
        obtain ⟨-, hmem, hsorted⟩ := Migration.existing_eq_ok hwf
          (anchored_root_of_isThere ho hthere) hnames
        rcases List.mem_cons.1 ((hmem other).2 ⟨hold, hend'⟩) with heq | hrest
        · exact hne heq
        · exact hne (le_antisymm (hleast name hend hstood) ((List.pairwise_cons.1 hsorted).1 _ hrest))
    | pattern ha hpattern =>
      have hknows := (h.entered e htracked).knows hanchor
      rw [hknows.node?_eq_none hpattern hend] at hstood
      cases hstood

/-! ## All that was there -/

/-- The manifest accounts for all that stood at the paths of a backup: there is a copy, or a line
about the artifact is among the errors. A route file without a copy is noted, but all errors are
about artifacts. -/
structure Reported (b : BackupStore) (cs : List Configuration) (m : BackupManifest) (d d' : Disk) :
    Prop where
  artifacts : ∀ c ∈ cs, ∀ a o, Candidate b d c a o → d.isThere (b.root ++ o) = .ok true →
    ∃ e, (.text c.studly, .text a.name, e) ∈ m.entries ∧
      (e.backedUp = true ∧ HasCopy b m d d' o e.copy ∨
        ∃ message : String, s!"{c.studly}.{a.name}: {message}" ∈ m.errors)
  shared : d.isThere (b.root ++ Path.ofString b.shared) = .ok true →
    HasCopy b m d d' (Path.ofString b.shared) m.sharedCopy ∨
      m.sharedExisted = true ∧ m.sharedCopy = .null
  errors : ∀ line ∈ m.errors,
    ∃ c ∈ cs, ∃ (a : Artifact) (message : String), line = s!"{c.studly}.{a.name}: {message}"

/-- A backup that is made reports what it could not copy. -/
theorem ends_create_reported {api : Bool} {moment : Moment} (hwf : s.disk.WellFormed)
    (hfolder : b.folder.Spelled) (hshared : b.shared = RouteFile.relativePath api)
    (hwords : ∀ c ∈ cs, c.studly = "" ∨ IsWord c.studly) :
    Ends (b.create cs moment) s (fun m t ↦ Reported b cs m s.disk t.disk) fun _ _ ↦ True := by
  refine ((ends_create hwf hfolder hshared hwords).and (ends_create_told b cs moment s)).mono ?_
    fun _ _ _ ↦ trivial
  rintro m t ⟨⟨-, session, d₀, hopening, hmade⟩, htold⟩
  have hopens := hopening.changes
  refine ⟨fun c hc a o hcandidate hthere ↦ ?_, fun hthere ↦ ?_, fun line ↦ htold.exists_eq_of_mem_errors⟩
  · obtain ⟨e, he, hexisted, hcopied | hleft⟩ :=
      hmade.exists_entry hopens hwf (hwords c hc) hc hcandidate hthere
    · exact ⟨e, he, .inl hcopied⟩
    · obtain ⟨message, hmessage, herror⟩ := (htold _ he).2.2 hexisted hleft
      exact ⟨e, he, .inr ⟨message, m.mem_errors he hmessage herror⟩⟩
  · obtain ⟨file, hpath, hcopy⟩ := copyOf_routes api
    have ho : (Path.ofString b.shared).IsTarget := by
      rw [hshared, hpath]
      exact hcopy.original
    have horiginal : m.sharedEntry.original = .text (Path.ofString b.shared).toString := by
      have htext : (Path.ofString (RouteFile.relativePath api)).toString =
          RouteFile.relativePath api := by cases api <;> decide
      rw [BackupManifest.sharedEntry, hmade.sharedPath, hshared, htext]
    obtain ⟨hexisted, ⟨-, hsaved⟩ | ⟨-, hnull⟩⟩ := hmade.hasCopy_or_left hopens
      m.sharedEntry_mem_tracked ho horiginal hthere
    · exact .inl hsaved
    · exact .inr ⟨hexisted, hnull⟩

end BackupStore

end Scaffold
