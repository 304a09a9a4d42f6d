import Scaffold.Proofs.Backup.Fidelity
import Scaffold.Proofs.Backup.Session
import Scaffold.Proofs.Configuration.Building

/-!
# Making a backup

A backup opens a session, goes through the artifacts of all entities and the route file, and leaves
its manifest. Every entry knows what stood at its path, and nothing outside of the session changes.
-/

namespace Scaffold

theorem Artifact.eq_migration {a : Artifact} {c : Configuration} (h : a.fixedPath? c = none) :
    a = migration := by
  cases a <;> first | rfl | cases h

/-- Where an artifact lies is decided by the name of its entity. -/
theorem Artifact.fixedPath?_congr {c c' : Configuration} (h : c'.studly = c.studly) (a : Artifact) :
    a.fixedPath? c' = a.fixedPath? c := by
  rw [fixedPath?, fixedPath?, h]
  rcases a.place c.studly with - | ⟨folder, role⟩
  · rfl
  · simp only [Option.map_some, Configuration.className, h]

/-- The entities of a schema have words for names. -/
theorem Configuration.Built.words {schema : Schema} {cs : List Configuration} {memory : Memory}
    (h : Configuration.Built schema cs memory) : ∀ c ∈ cs, c.studly = "" ∨ IsWord c.studly := by
  intro c hc
  have hmem : c.studly ∈ cs.map (·.studly) := List.mem_map_of_mem hc
  rw [h.studly] at hmem
  obtain ⟨e, -, he⟩ := List.mem_map.1 hmem
  rw [← he]
  exact isWord_studly e.1

namespace BackupStore

open Disk DiskOp

variable {b : BackupStore} {session : Path} {d₀ d d' : Disk} {o : Path} {a : Artifact}
  {c : Configuration} {entity : String} {e : BackupEntry} {s : Scene} {asked : List String}

/-! ## Entries -/

/-- The entry belongs to a backup over the first disk whose copies are on the second one. -/
structure Entered (b : BackupStore) (session : Path) (d₀ : Disk) (e : BackupEntry) (d : Disk) :
    Prop where
  legible : e.Legible
  knows : d₀.Anchored b.root → Knows b session d₀ e
  stored : ∀ c : Path, c.IsTarget → e.copy = .text c.toString →
    (d.file? (d₀.resolve session ++ c.parts)).isSome

theorem Entered.retains (h : Entered b session d₀ e d) (hretains : Retains d d') :
    Entered b session d₀ e d' :=
  ⟨h.legible, h.knows, fun c hc hcopy ↦ hretains _ (h.stored c hc hcopy)⟩

/-- The entry is about the artifact of the entity: about its path, or about the oldest migration
that there is, or about all migrations that will be there. -/
inductive Covers (b : BackupStore) (d₀ : Disk) (c : Configuration) (a : Artifact) (e : BackupEntry) :
    Prop
  | fixed {o : Path} (ho : a.fixedPath? c = some o) (he : e.original = .text o.toString)
  | oldest {name : String} (ha : a = .migration)
      (he : e.original = .text (Migration.folder.child name).toString)
      (hend : Text.endsWith name (Migration.ending c.table) = true)
      (hsome : (d₀.node? (d₀.resolve (b.root ++ Migration.folder) ++ [name])).isSome)
      (hleast : ∀ other, Text.endsWith other (Migration.ending c.table) = true →
        (d₀.node? (d₀.resolve (b.root ++ Migration.folder) ++ [other])).isSome → name ≤ other)
  | pattern (ha : a = .migration) (he : e.pattern = .text (Migration.pathPattern c.table))

theorem Covers.congr {c' : Configuration} (h : Covers b d₀ c a e) (hc : c'.studly = c.studly) :
    Covers b d₀ c' a e := by
  have htable : c'.table = c.table := congrArg Name.table hc
  cases h with
  | fixed ho he => exact .fixed ((Artifact.fixedPath?_congr hc a).trans ho) he
  | oldest ha he hend hsome hleast =>
    rw [← htable] at hend hleast
    exact .oldest ha he hend hsome hleast
  | pattern ha he =>
    rw [← htable] at he
    exact .pattern ha he

/-- A part of a backup goes on with the session, or fails plainly. -/
abbrev Proceeds (b : BackupStore) (session : Path) (d₀ : Disk) (asked : List String) (s : Scene) :
    Prop := Filling b session d₀ s.disk ∧ s.asked = asked

variable (hnew : New b session d₀)

include hnew

theorem Filling.knows_absent (h : Filling b session d₀ d) (hanchor : d₀.Anchored b.root)
    (ho : o.IsTarget) (hthere : d.isThere (b.root ++ o) = .ok false) :
    Knows b session d₀ ⟨.text o.toString, .null, false, false, .null, .null⟩ := by
  refine .absent ho ?_ (h.not_refuses hnew (ho.anchored hanchor) fun hrefuses ↦ ?_)
  · have hnone := h.grows.wellFormed.eq_of_isThere (ho.anchored (h.grows.anchored hanchor)) hthere
    rw [ho.resolve_eq, h.grows.resolve_eq, eq_comm, Bool.eq_false_iff, ne_eq,
      h.isSome_iff hnew hanchor ho] at hnone
    simpa using hnone
  · rw [isThere, holds, nodeAt, hrefuses] at hthere
    cases hthere

/-- A file that can be copied is kept; one that cannot be copied is left, and one that is not there
is absent. -/
theorem ends_backupFile (hs : Proceeds b session d₀ asked s)
    (hc : (copyPath a entity o).CopyOf o) :
    Ends (b.backupFile session a entity o) s
      (fun e t ↦ (Entered b session d₀ e t.disk ∧ e.original = .text o.toString) ∧
        Proceeds b session d₀ asked t ∧ Retains s.disk t.disk)
      fun e t ↦ Proceeds b session d₀ asked t ∧ e.isDiskFailure = true := by
  obtain ⟨h, hasked⟩ := hs
  rw [backupFile, ends_bind, Run.ends_query]
  refine ⟨fun there hthere ↦ ?_, fun e he ↦
    ⟨⟨h, hasked⟩, Failure.isDiskFailure_disk.2 (isPlain_of_holds he)⟩⟩
  cases there with
  | false =>
    simp only [Bool.not_false, if_true, ends_pure]
    exact ⟨⟨⟨⟨trivial, trivial, trivial, trivial⟩, fun hanchor ↦
      h.knows_absent hnew hanchor hc.original hthere, fun c _ hcopy ↦ by cases hcopy⟩, trivial⟩,
      ⟨h, hasked⟩, fun _ ↦ id⟩
  | true =>
    simp only [Bool.not_true, Bool.false_eq_true, if_false]
    rw [ends_bind, Run.ends_attempt, Run.ends_onDisk]
    refine (h.ends_copyFile hnew hc hthere).mono ?_ ?_
    · rintro _ d' ⟨h', hretains, hstored, hcopy, hfile⟩
      simp only [ends_bind, Run.ends_say, ends_pure]
      refine ⟨⟨⟨⟨trivial, trivial, trivial, trivial⟩, fun hanchor ↦ .kept hc ?_ ?_ hcopy, ?_⟩, trivial⟩,
        ⟨h', hasked⟩, hretains⟩
      · rwa [← h.file?_original hnew hanchor hc.original hthere]
      · exact pathFault?_of_locate (isThere_eq_true_iff.1 hthere).1
      · intro c' hc' heq
        have hpath := congrArg Path.ofString (Value.text.inj heq)
        rw [hc.copy.ofString_toString, hc'.ofString_toString] at hpath
        rwa [← hpath]
    · rintro e d' ⟨h', hretains, hplain⟩
      refine ⟨fun _ ↦ ?_, fun hfatal ↦ ?_⟩
      · simp only [ends_bind, Run.ends_say, ends_pure]
        exact ⟨⟨⟨⟨trivial, trivial, trivial, trivial⟩, fun _ ↦ .left hc.original trivial,
          fun c _ hcopy ↦ by cases hcopy⟩, trivial⟩, ⟨h', hasked⟩, hretains⟩
      · rw [Failure.isDiskFailure_disk.2 hplain] at hfatal
        cases hfatal

omit hnew in
/-- What migrations there are is refused plainly. -/
theorem isPlain_of_existing {table : String} {e : DiskError} {root : Path}
    (h : Migration.existing d root table = .error e) : e.fault.IsPlain := by
  rw [Migration.existing] at h
  rcases hdir : d.isDir (root ++ Migration.folder) with e' | ⟨⟩ | ⟨⟩
  · rw [hdir] at h
    obtain rfl := Except.error.inj h
    exact isPlain_of_holds hdir
  · rw [hdir] at h
    cases h
  · rw [hdir] at h
    cases h

/-- If no migration is found none was there when the session was opened. -/
theorem Filling.knows_of_existing (h : Filling b session d₀ d) (hanchor : d₀.Anchored b.root)
    {table : String} (htable : Migration.IsTable table)
    (hnames : Migration.existing d b.root table = .ok []) :
    Knows b session d₀ ⟨.null, .null, false, false, .null, .text (Migration.pathPattern table)⟩ := by
  obtain ⟨hopen, hmem, -⟩ :=
    Migration.existing_eq_ok h.grows.wellFormed (h.grows.anchored hanchor) hnames
  refine .fits htable (fun name hend ↦ ?_)
    (h.not_refuses hnew (Migration.anchored_folder hanchor) hopen)
  by_contra hsome
  rw [← ne_eq, Option.ne_none_iff_isSome] at hsome
  have := (hmem name).2 ⟨h.grows.resolve_eq (b.root ++ Migration.folder) ▸ h.grows.isSome hsome, hend⟩
  simp at this

omit hnew in
/-- The migration that is found is the oldest of those that were there when the session was
opened. -/
theorem Filling.le_of_existing (h : Filling b session d₀ d) (hanchor : d₀.Anchored b.root)
    {table file : String} {rest : List String}
    (hnames : Migration.existing d b.root table = .ok (file :: rest)) (other : String)
    (hend : Text.endsWith other (Migration.ending table) = true)
    (hsome : (d₀.node? (d₀.resolve (b.root ++ Migration.folder) ++ [other])).isSome) :
    file ≤ other := by
  obtain ⟨-, hmem, hsorted⟩ :=
    Migration.existing_eq_ok h.grows.wellFormed (h.grows.anchored hanchor) hnames
  have hother := (hmem other).2
    ⟨h.grows.resolve_eq (b.root ++ Migration.folder) ▸ h.grows.isSome hsome, hend⟩
  rcases List.mem_cons.1 hother with rfl | hother
  · exact le_refl _
  · exact (List.pairwise_cons.1 hsorted).1 other hother

/-- Of an artifact its path is remembered, and of a migration that is not there its pattern. -/
theorem ends_backupArtifact (hs : Proceeds b session d₀ asked s)
    (hword : c.studly = "" ∨ IsWord c.studly) (a : Artifact) :
    Ends (b.backupArtifact session c a) s
      (fun x t ↦ (x.1 = .text a.name ∧ Entered b session d₀ x.2 t.disk ∧
          (d₀.Anchored b.root → Covers b d₀ c a x.2)) ∧
        Proceeds b session d₀ asked t ∧ Retains s.disk t.disk)
      fun e t ↦ Proceeds b session d₀ asked t ∧ e.isDiskFailure = true := by
  rw [backupArtifact]
  rcases hfixed : a.fixedPath? c with - | o
  · obtain rfl := Artifact.eq_migration hfixed
    simp only
    rw [ends_bind, Run.ends_query]
    refine ⟨fun names hnames ↦ ?_, fun e he ↦
      ⟨hs, Failure.isDiskFailure_disk.2 (isPlain_of_existing he)⟩⟩
    cases names with
    | nil =>
      exact (ends_pure _).2 ⟨⟨rfl, ⟨⟨trivial, trivial, trivial, trivial⟩, fun hanchor ↦
        hs.1.knows_of_existing hnew hanchor (Migration.isTable_table _) hnames,
        fun c _ hcopy ↦ by cases hcopy⟩, fun _ ↦ .pattern rfl rfl⟩, hs, fun _ ↦ id⟩
    | cons file rest =>
      obtain ⟨-, hsome, hend⟩ := Migration.mem_existing hnames List.mem_cons_self
      obtain ⟨n, hn⟩ := Option.isSome_iff_exists.1 hsome
      have hcopy : (copyPath .migration c.studly (Migration.folder.child file)).CopyOf _ :=
        Migration.copyOf (Migration.endsWith_php hend) (hs.1.grows.wellFormed.parent _ _ _ hn).2.noSlash
      rw [ends_bind]
      refine (ends_backupFile hnew hs hcopy).mono ?_ fun _ _ ↦ id
      rintro e t ⟨⟨hentered, horiginal⟩, ht, hretains⟩
      refine (ends_pure _).2 ⟨⟨rfl, hentered, fun hanchor ↦
        .oldest rfl horiginal hend ?_ (hs.1.le_of_existing hanchor hnames)⟩, ht, hretains⟩
      rw [hs.1.grows.resolve_eq, Migration.resolve_child] at hsome
      rw [Migration.resolve_child]
      exact (hs.1.isSome_iff hnew hanchor hcopy.original).1 hsome
  · simp only
    rw [ends_bind]
    refine (ends_backupFile hnew hs (Artifact.copyOf_fixedPath? hword hfixed)).mono ?_ fun _ _ ↦ id
    rintro e t ⟨⟨hentered, horiginal⟩, ht, hretains⟩
    exact (ends_pure _).2 ⟨⟨rfl, hentered, fun _ ↦ .fixed hfixed horiginal⟩, ht, hretains⟩

/-- The entries of an entity are about its artifacts. -/
def Lists (b : BackupStore) (session : Path) (d₀ : Disk) (c : Configuration)
    (xs : List (Value × BackupEntry)) (d : Disk) : Prop :=
  List.Forall₂ (fun a x ↦ x.1 = .text a.name ∧ Entered b session d₀ x.2 d ∧
    (d₀.Anchored b.root → Covers b d₀ c a x.2)) Artifact.backupOrder xs

omit hnew in
theorem Lists.retains {xs : List (Value × BackupEntry)} (h : Lists b session d₀ c xs d)
    (hretains : Retains d d') : Lists b session d₀ c xs d' :=
  List.Forall₂.imp (fun _ _ hx ↦ ⟨hx.1, hx.2.1.retains hretains, hx.2.2⟩) h

omit hnew in
theorem Lists.congr {c' : Configuration} {xs : List (Value × BackupEntry)}
    (h : Lists b session d₀ c xs d) (hc : c'.studly = c.studly) : Lists b session d₀ c' xs d :=
  List.Forall₂.imp (fun _ _ hx ↦ ⟨hx.1, hx.2.1, fun hanchor ↦ (hx.2.2 hanchor).congr hc⟩) h

theorem ends_backupEntity (hs : Proceeds b session d₀ asked s)
    (hword : c.studly = "" ∨ IsWord c.studly) :
    Ends (b.backupEntity session c) s
      (fun xs t ↦ Lists b session d₀ c xs t.disk ∧ Proceeds b session d₀ asked t ∧
        Retains s.disk t.disk)
      fun e t ↦ Proceeds b session d₀ asked t ∧ e.isDiskFailure = true :=
  Ends.mapM_later (Proceeds b session d₀ asked) (fun t u ↦ Retains t.disk u.disk)
    (fun (a : Artifact) (x : Value × BackupEntry) t ↦ x.1 = .text a.name ∧ Entered b session d₀ x.2 t.disk ∧
      (d₀.Anchored b.root → Covers b d₀ c a x.2))
    (fun _ _ ↦ id) (fun _ _ _ h h' l hl ↦ h' l (h l hl))
    (fun _ _ _ _ hx hretains ↦ ⟨hx.1, hx.2.1.retains hretains, hx.2.2⟩) hs
    fun a _ _ ht ↦ ends_backupArtifact hnew ht hword a

/-- The entities of a manifest are those that were backed up, each of them once. -/
def Collects (b : BackupStore) (session : Path) (d₀ : Disk) (cs : List Configuration)
    (entities : List (Value × List (Value × BackupEntry))) (d : Disk) : Prop :=
  ∃ named : List (String × List (Value × BackupEntry)),
    entities = named.map (fun x ↦ (.text x.1, x.2)) ∧ (named.map Prod.fst).Nodup ∧
      (∀ x ∈ named, ∃ c ∈ cs, x.1 = c.studly ∧ Lists b session d₀ c x.2 d) ∧
        ∀ c ∈ cs, ∃ x ∈ named, x.1 = c.studly ∧ Lists b session d₀ c x.2 d

omit hnew in
theorem Collects.retains {cs : List Configuration}
    {entities : List (Value × List (Value × BackupEntry))}
    (h : Collects b session d₀ cs entities d) (hretains : Retains d d') :
    Collects b session d₀ cs entities d' := by
  obtain ⟨named, hnamed, hnodup, hmem, hall⟩ := h
  refine ⟨named, hnamed, hnodup, fun x hx ↦ ?_, fun c hc ↦ ?_⟩
  · obtain ⟨c, hc, hname, hlists⟩ := hmem x hx
    exact ⟨c, hc, hname, hlists.retains hretains⟩
  · obtain ⟨x, hx, hname, hlists⟩ := hall c hc
    exact ⟨x, hx, hname, hlists.retains hretains⟩

/-- Of entities with one name the last one is kept, which has the same artifacts. -/
theorem ends_backupEntities {cs : List Configuration} (hs : Proceeds b session d₀ asked s)
    (hwords : ∀ c ∈ cs, c.studly = "" ∨ IsWord c.studly) :
    Ends (b.backupEntities session cs) s
      (fun entities t ↦ Collects b session d₀ cs entities t.disk ∧
        Proceeds b session d₀ asked t ∧ Retains s.disk t.disk)
      fun e t ↦ Proceeds b session d₀ asked t ∧ e.isDiskFailure = true := by
  rw [backupEntities, ends_bind]
  refine (Ends.mapM_later (Proceeds b session d₀ asked) (fun t u ↦ Retains t.disk u.disk)
    (fun (c : Configuration) (x : String × List (Value × BackupEntry)) t ↦
      x.1 = c.studly ∧ Lists b session d₀ c x.2 t.disk) (fun _ _ ↦ id)
    (fun _ _ _ h h' l hl ↦ h' l (h l hl)) (fun _ _ _ _ hx hretains ↦ ⟨hx.1, hx.2.retains hretains⟩)
    hs fun c hc t ht ↦ ?_).mono ?_ fun _ _ ↦ id
  · rw [ends_bind]
    exact (ends_backupEntity hnew ht (hwords c hc)).mono
      (fun xs u hu ↦ (ends_pure _).2 ⟨⟨rfl, hu.1⟩, hu.2⟩) fun _ _ ↦ id
  · rintro found t ⟨hfound, ht, hretains⟩
    have hmem : ∀ x ∈ Entries.ofList found, ∃ c ∈ cs, x.1 = c.studly ∧
        Lists b session d₀ c x.2 t.disk := fun x hx ↦
      exists_of_forall₂_of_mem_right hfound (Entries.mem_of_mem_ofList hx)
    have hall (c : Configuration) (hc : c ∈ cs) : ∃ x ∈ Entries.ofList found, x.1 = c.studly ∧
        Lists b session d₀ c x.2 t.disk := by
      obtain ⟨x, hx, hname, -⟩ := exists_of_forall₂_of_mem_right hfound.flip hc
      obtain ⟨y, hy, hkey⟩ := List.mem_map.1
        (Entries.mem_keys_ofList.2 (List.mem_map_of_mem (f := Prod.fst) hx))
      obtain ⟨c', -, hname', hlists⟩ := hmem y hy
      have hstudly : c.studly = c'.studly := by rw [← hname, ← hkey, hname']
      exact ⟨y, hy, hkey.trans hname, hlists.congr hstudly⟩
    exact (ends_pure _).2 ⟨⟨_, rfl, Entries.nodup_keys_ofList found, hmem, hall⟩, ht, hretains⟩

theorem ends_backupShared {api : Bool} (hs : Proceeds b session d₀ asked s)
    (hshared : b.shared = RouteFile.relativePath api) :
    Ends (b.backupShared session) s
      (fun x t ↦ (Json.Written 0 x.1 ∧ Entered b session d₀
          ⟨.text b.shared, x.1, !x.1.isFalsy, x.2, .null, .null⟩ t.disk) ∧
        Proceeds b session d₀ asked t ∧ Retains s.disk t.disk)
      fun e t ↦ Proceeds b session d₀ asked t ∧ e.isDiskFailure = true := by
  obtain ⟨file, hpath, hc⟩ := copyOf_routes api
  obtain ⟨h, hasked⟩ := hs
  have horiginal : Path.ofString b.shared = ⟨0, ["routes", file]⟩ := by rw [hshared, hpath]
  have htext : b.shared = Path.toString ⟨0, ["routes", file]⟩ := by
    rw [hshared, ← hpath]
    cases api <;> decide
  have hname : (b.root ++ (⟨0, ["routes", file]⟩ : Path)).name = file := by
    rw [hc.original.append_eq, Path.name]
    simp
  rw [backupShared]
  simp only [horiginal, hname]
  rw [ends_bind, Run.ends_query]
  refine ⟨fun there hthere ↦ ?_, fun e he ↦
    ⟨⟨h, hasked⟩, Failure.isDiskFailure_disk.2 (isPlain_of_holds he)⟩⟩
  cases there with
  | false =>
    simp only [Bool.not_false, if_true, ends_pure]
    refine ⟨⟨trivial, ⟨trivial, trivial, trivial, trivial⟩, fun hanchor ↦ ?_, fun c _ hcopy ↦ ?_⟩,
      ⟨h, hasked⟩, fun _ ↦ id⟩
    · rw [htext]
      exact h.knows_absent hnew hanchor hc.original hthere
    · cases hcopy
  | true =>
    simp only [Bool.not_true, Bool.false_eq_true, if_false]
    rw [ends_bind, Run.ends_attempt, Run.ends_onDisk]
    refine (h.ends_copyFile hnew hc hthere).mono ?_ ?_
    · rintro _ d' ⟨h', hretains, hstored, hcopy, hfile⟩
      simp only [ends_bind, Run.ends_say, ends_pure]
      have htrue : (!(Value.text (Path.toString ⟨0, ["routes", file]⟩)).isFalsy) = true := by
        rw [← htext, hshared]
        cases api <;> decide
      refine ⟨⟨trivial, ⟨trivial, trivial, trivial, trivial⟩, fun hanchor ↦ ?_, fun c hc' heq ↦ ?_⟩,
        ⟨h', hasked⟩, hretains⟩
      · rw [htrue, htext]
        exact .kept hc (by rwa [← h.file?_original hnew hanchor hc.original hthere])
          (pathFault?_of_locate (isThere_eq_true_iff.1 hthere).1) hcopy
      · have hpath := congrArg Path.ofString (Value.text.inj heq)
        rw [hc.copy.ofString_toString, hc'.ofString_toString] at hpath
        rwa [← hpath]
    · rintro e d' ⟨h', hretains, hplain⟩
      refine ⟨fun _ ↦ ?_, fun hfatal ↦ ?_⟩
      · simp only [ends_bind, Run.ends_say, ends_pure]
        refine ⟨⟨trivial, ⟨trivial, trivial, trivial, trivial⟩, fun _ ↦ ?_, fun c _ hcopy ↦ ?_⟩,
          ⟨h', hasked⟩, hretains⟩
        · rw [htext]
          exact .left hc.original trivial
        · cases hcopy
      · rw [Failure.isDiskFailure_disk.2 hplain] at hfatal
        cases hfatal

/-- The location is that of a file in a session: of a copy, or of the manifest. -/
def Filed (place l : Location) : Prop := Copied place l ∨ l = place ++ [manifestName]

omit hnew in
theorem Filed.stored {place l : Location} (h : Filed place l) : Stored place l := by
  rcases h with hcopied | rfl
  · exact hcopied.stored
  · exact stored_append (q := []) (.inr rfl)

omit hnew in
/-- What a backup leaves: its session, whose entries know the disk on which it was opened. -/
structure Made (b : BackupStore) (cs : List Configuration) (session : Path) (m : BackupManifest)
    (d₀ d : Disk) : Prop where
  new : New b session d₀
  files : Grows (Folders (d₀.resolve session)) (Filed (d₀.resolve session)) d₀ d
  manifest : d.readBytes (session.child manifestName) = .ok (Text.encode m.json)
  legible : m.Legible
  timestamp : m.timestamp = session.name
  directory : m.directory = session.toString
  sharedPath : m.sharedPath = b.shared
  entered : ∀ e ∈ m.tracked, Entered b session d₀ e d
  listed : d₀.Anchored b.root → ∀ c ∈ cs, ∀ a : Artifact,
    ∃ e, (.text c.studly, .text a.name, e) ∈ m.entries ∧ Covers b d₀ c a e
  held : d₀.Anchored b.root → ∀ o c : Path, c.CopyOf o →
    d.file? (d₀.resolve session ++ c.parts) = none ∨
      d.file? (d₀.resolve session ++ c.parts) = d₀.file? (d₀.resolve b.root ++ o.parts)
  isSome_iff : d₀.Anchored b.root → ∀ o : Path, o.IsTarget →
    ((d.node? (d₀.resolve b.root ++ o.parts)).isSome ↔
      (d₀.node? (d₀.resolve b.root ++ o.parts)).isSome)

omit hnew in
theorem Made.grows {cs : List Configuration} {m : BackupManifest} (h : Made b cs session m d₀ d) :
    Grows (Folders (d₀.resolve session)) (Stored (d₀.resolve session)) d₀ d :=
  h.files.mono (fun _ ↦ id) fun _ ↦ Filed.stored

omit hnew in
theorem manifestName_ne {dirs : List String} {file : String} {place : Location}
    (h : Text.endsWith file ".php" = true) : place ++ [manifestName] ≠ dirs ++ [file] := by
  intro heq
  obtain ⟨-, hfile⟩ := List.append_inj' heq rfl
  obtain rfl := List.singleton_inj.1 hfile
  revert h
  decide

omit hnew in
/-- The entries of all entities can be read from the manifest. -/
theorem Collects.legible {cs : List Configuration}
    {entities : List (Value × List (Value × BackupEntry))}
    (h : Collects b session d₀ cs entities d) :
    ∃ texts : List (String × List (String × BackupEntry)),
      entities = texts.map (fun x ↦ (.text x.1, x.2.map fun y ↦ (.text y.1, y.2))) ∧
      (texts.map Prod.fst).Nodup ∧
        ∀ x ∈ texts, (x.2.map Prod.fst).Nodup ∧ ∀ y ∈ x.2, y.2.Legible := by
  obtain ⟨named, rfl, hnodup, hmem, -⟩ := h
  refine BackupManifest.exists_texts hnodup fun x hx ↦ ?_
  obtain ⟨c, -, -, hlists⟩ := hmem x hx
  exact hlists.imp fun a y ha ↦ ⟨ha.1, ha.2.1.legible⟩

omit hnew in
theorem mem_tracked {m : BackupManifest} :
    e ∈ m.tracked ↔ (∃ x ∈ m.entities, ∃ y ∈ x.2, y.2 = e) ∨ e = m.sharedEntry := by
  simp only [BackupManifest.tracked, BackupManifest.entries, List.mem_append, List.mem_map,
    List.mem_flatMap, List.mem_singleton]
  refine or_congr_left ⟨?_, ?_⟩
  · rintro ⟨_, ⟨x, hx, y, hy, rfl⟩, rfl⟩
    exact ⟨x, hx, y, hy, rfl⟩
  · rintro ⟨x, hx, y, hy, rfl⟩
    exact ⟨_, ⟨x, hx, y, hy, rfl⟩, rfl⟩

omit hnew in
/-- Of every artifact of every entity the backup knows something. -/
theorem Made.covers {cs : List Configuration} {m : BackupManifest} (h : Made b cs session m d₀ d)
    (hanchor : d₀.Anchored b.root) : ∀ c ∈ cs, ∀ a, ∃ e ∈ m.tracked, Covers b d₀ c a e := by
  intro c hc a
  obtain ⟨e, he, hcovers⟩ := h.listed hanchor c hc a
  exact ⟨e, List.mem_append_left _ (List.mem_map_of_mem he), hcovers⟩

/-- The manifest is written into the session. -/
theorem ends_writeManifest {cs : List Configuration} {m : BackupManifest}
    (h : Filling b session d₀ d) (hentities : Collects b session d₀ cs m.entities d)
    (hsharedPath : m.sharedPath = b.shared) (hne : b.shared ≠ "")
    (hshared : Json.Written 0 m.sharedCopy ∧ Entered b session d₀ m.sharedEntry d)
    (htimestamp : m.timestamp = session.name) (hdirectory : m.directory = session.toString) :
    Ends (DiskOp.write (session.child manifestName) (Text.encode m.json)) d
      (fun _ d' ↦ Made b cs session m d₀ d') fun e d' ↦ d' = d ∧ e.fault.IsPlain := by
  have hplain : ".." ∉ [manifestName] := by decide
  have hplace : d.resolve (session.child manifestName) = d₀.resolve session ++ [manifestName] := by
    rw [← h.grows.resolve_eq session]
    exact resolve_append _ _ _ hplain
  have hspelled : (session.child manifestName).Spelled :=
    List.forall_mem_append.2 ⟨hnew.sessionSpelled, List.forall_mem_singleton.2 (by decide)⟩
  have hclean : Clean (session.child manifestName) :=
    List.forall_mem_append.2 ⟨Clean.of_pathFault?
      (pathFault?_of_locate (isDir_eq_true_iff.1 (h.isDir hnew)).1),
      List.forall_mem_singleton.2 (by decide)⟩
  refine ((changes_write h.grows.wellFormed hspelled).and (failsPlainly_write hclean)).mono ?_
    fun _ _ hbad ↦ hbad
  rintro _ d' ⟨⟨hchanges, hlocate, hfile⟩, -⟩
  have hread : d'.readBytes (session.child manifestName) = .ok (Text.encode m.json) := by
    rw [← hchanges.resolve_eq] at hlocate hfile
    exact readBytes_eq_ok_iff.2 ⟨hlocate, hfile⟩
  rw [hplace] at hchanges hfile
  have hgrows : Grows nowhere (· = d₀.resolve session ++ [manifestName]) d d' :=
    hchanges.grows fun l hl ↦ by rw [hl, hfile]; rfl
  have hother {dirs : List String} {o : Path} (ho : o.IsTarget) :
      dirs ++ o.parts ≠ d₀.resolve session ++ [manifestName] := by
    obtain ⟨names, file, rfl, -, -, hphp, -⟩ := ho
    simp only [← List.append_assoc]
    exact (manifestName_ne hphp).symm
  refine ⟨hnew, (h.copies.mono (fun _ ↦ id) fun _ ↦ .inl).trans
    (hgrows.mono (fun _ ↦ False.elim) fun _ ↦ .inr), hread, ⟨?_, ?_, hshared.1⟩, htimestamp,
    hdirectory, hsharedPath, ?_, ?_, ?_, ?_⟩
  · exact hentities.legible
  · rwa [hsharedPath]
  · obtain ⟨named, hnamed, -, hmem, -⟩ := hentities
    intro e he
    rw [mem_tracked, hnamed] at he
    rcases he with ⟨_, hx, y, hy, rfl⟩ | rfl
    · obtain ⟨x', hx', rfl⟩ := List.mem_map.1 hx
      obtain ⟨c, -, -, hlists⟩ := hmem x' hx'
      obtain ⟨a, -, ha⟩ := exists_of_forall₂_of_mem_right hlists hy
      exact ha.2.1.retains hgrows.stays
    · exact hshared.2.retains hgrows.stays
  · obtain ⟨named, hnamed, -, -, hall⟩ := hentities
    intro hanchor c hc a
    obtain ⟨x, hx, hname, hlists⟩ := hall c hc
    obtain ⟨y, hy, hname', -, hcovers⟩ := exists_of_forall₂_of_mem_right hlists.flip
      (show a ∈ Artifact.backupOrder by cases a <;> decide)
    refine ⟨y.2, ?_, hcovers hanchor⟩
    rw [BackupManifest.entries, hnamed, ← hname, ← hname']
    exact List.mem_flatMap.2 ⟨_, List.mem_map_of_mem hx, List.mem_map_of_mem hy⟩
  · intro hanchor o c hc
    rw [hgrows.same _ (hother hc.copy)]
    exact h.held hanchor o c hc
  · intro hanchor o ho
    rw [← h.isSome_iff hnew hanchor ho]
    exact hgrows.isSome_iff id (hother ho)

/-! ## The whole backup -/

/-- What has become of a disk by a backup: new files of a session came below the directory of the
backups. -/
abbrev Frame (b : BackupStore) (d d' : Disk) : Prop :=
  Grows everywhere (fun l ↦ d.file? l = none ∧ Stored (d.resolve b.folder) l) d d'

/-- The location is that of a file in some session below a directory. -/
def InSession (folder l : Location) : Prop := ∃ name, IsSessionName name ∧ Filed (folder ++ [name]) l

omit hnew in
theorem InSession.stored {folder l : Location} (h : InSession folder l) : Stored folder l := by
  obtain ⟨name, -, hfiled⟩ := h
  obtain ⟨hpre, -, hname⟩ := hfiled.stored
  refine ⟨(List.prefix_append _ _).trans hpre, fun heq ↦ ?_, hname⟩
  have := hpre.length_le
  rw [heq, List.length_append, List.length_singleton] at this
  omega

/-- Files of sessions are new, where nothing was, and nothing else is. -/
abbrev Adds (b : BackupStore) (d d' : Disk) : Prop :=
  Grows everywhere (fun l ↦ d.file? l = none ∧ InSession (d.resolve b.folder) l) d d'

omit hnew in
theorem Adds.frame (h : b.Adds d d') : b.Frame d d' :=
  h.mono (fun _ ↦ id) fun _ ↦ And.imp_right InSession.stored

/-- What happens in a new session happens below the directory of the backups, where nothing was. -/
theorem adds (hopens : Changes (Named session.parts) nowhere d d₀)
    (h : Grows (Folders (d₀.resolve session)) (Filed (d₀.resolve session)) d₀ d') : b.Adds d d' := by
  obtain ⟨name, hplace, hname⟩ := hnew.exists_place
  have hopens' : Grows (Named session.parts) nowhere d d₀ := hopens.grows fun _ ↦ False.elim
  refine (hopens'.mono (fun _ _ ↦ trivial) fun _ ↦ False.elim).trans
    (h.mono (fun _ _ ↦ trivial) fun l hl ↦ ⟨?_, name, hname, ?_⟩)
  · obtain ⟨hpre, hne, -⟩ := hl.stored
    rw [← hopens.same l id, file?_eq_none_iff.2 (.inl (hnew.isEmpty l hpre hne))]
  · rwa [← hopens.resolve_eq, ← hplace]

omit hnew

/-- A backup is made, or it fails plainly unless the directory of the backups cannot be used. -/
theorem ends_create {api : Bool} {cs : List Configuration} {m : Moment} (hwf : s.disk.WellFormed)
    (hfolder : b.folder.Spelled) (hshared : b.shared = RouteFile.relativePath api)
    (hwords : ∀ c ∈ cs, c.studly = "" ∨ IsWord c.studly) :
    Ends (b.create cs m) s
      (fun manifest t ↦ t.asked = s.asked ∧ ∃ session d₀, Opening b m session s.disk d₀ ∧
        Made b cs session manifest d₀ t.disk)
      fun e t ↦ t.asked = s.asked ∧ b.Adds s.disk t.disk ∧ (Clean b.folder →
        s.disk.missingFrom (s.disk.start b.folder) b.folder.parts ≤ deepest →
          e.isDiskFailure = true) := by
  rw [create, ends_bind, ends_get]
  generalize hsession : b.folder.child (freeName (s.disk.list b.folder) m.backupStamp) = session
  have hname : ∃ name, session = b.folder.child name ∧ IsSessionName name :=
    ⟨_, hsession.symm, isSessionName_sessionName m _⟩
  have hforall {P : String → Prop} (h : ∀ part ∈ b.folder.parts, P part)
      (hsessionName : ∀ name, IsSessionName name → P name) : ∀ part ∈ session.parts, P part := by
    obtain ⟨name, rfl, hname⟩ := hname
    exact List.forall_mem_append.2 ⟨h, List.forall_mem_singleton.2 (hsessionName name hname)⟩
  have hspelled : session.Spelled := hforall hfolder fun name hname ↦ hname.char_not_mem (by decide)
  have hmake : Ends (makeNewDir session) s.disk (fun _ _ ↦ True) fun e _ ↦ Clean b.folder ∧
      s.disk.missingFrom (s.disk.start b.folder) b.folder.parts ≤ deepest → e.fault.IsPlain := by
    refine (Ends.imp fun ⟨hclean, hdeep⟩ ↦ failsPlainly_makeNewDir
      (hforall hclean fun name hname ↦ hname.char_not_mem (by decide)) ?_).mono
      (fun _ _ _ ↦ trivial) fun _ _ ↦ id
    obtain ⟨name, rfl, -⟩ := hname
    rw [Path.child, List.dropLast_concat]
    exact hdeep
  simp only
  rw [ends_bind, Run.ends_query]
  refine ⟨fun there _ ↦ ?_, fun e he ↦
    ⟨rfl, .refl hwf, fun _ _ ↦ Failure.isDiskFailure_disk.2 (isPlain_of_holds he)⟩⟩
  rw [ends_bind, Run.ends_onDisk]
  refine ((opening_makeNewDir hwf hspelled hsession.symm).and hmake).mono ?_ ?_
  · rintro _ d₀ ⟨⟨hopening, hisDir, hempty⟩, -⟩
    have hopens := hopening.changes
    have hnew : New b session d₀ :=
      ⟨hopens.wellFormed, hname, hspelled, hisDir, fun l hpre hne ↦ hempty l ⟨hpre, hne⟩⟩
    have hbad (e : Failure) (t : Scene) :
        Proceeds b session d₀ s.asked t ∧ e.isDiskFailure = true → t.asked = s.asked ∧
          b.Adds s.disk t.disk ∧ (Clean b.folder → s.disk.missingFrom (s.disk.start b.folder)
            b.folder.parts ≤ deepest → e.isDiskFailure = true) := fun h ↦
      ⟨h.1.2, adds hnew hopens (h.1.1.copies.mono (fun _ ↦ id) fun _ ↦ .inl), fun _ _ ↦ h.2⟩
    rw [ends_bind]
    refine (ends_backupEntities hnew ⟨hnew.filling, rfl⟩ hwords).mono ?_ hbad
    rintro entities t₁ ⟨hentities, ht₁, -⟩
    rw [ends_bind]
    refine (ends_backupShared hnew ht₁ hshared).mono ?_ hbad
    rintro ⟨copy, existed⟩ t₂ ⟨hcopy, ht₂, hretains⟩
    simp only
    rw [ends_bind, Run.ends_onDisk]
    refine (ends_writeManifest hnew ht₂.1 (hentities.retains hretains) rfl
      (by rw [hshared]; cases api <;> decide) hcopy rfl rfl).mono ?_ ?_
    · intro _ d' hmade
      simp only [ends_bind, Run.ends_say, ends_pure]
      exact ⟨ht₂.2, session, d₀, hopening, hmade⟩
    · rintro e _ ⟨rfl, hplain⟩
      exact hbad _ _ ⟨ht₂, Failure.isDiskFailure_disk.2 hplain⟩
  · rintro e d' ⟨hchanges, hplain⟩
    refine ⟨rfl, ?_, fun hclean hdeep ↦ Failure.isDiskFailure_disk.2 (hplain ⟨hclean, hdeep⟩)⟩
    have hgrows : Grows (Named session.parts) nowhere s.disk d' := hchanges.grows fun _ ↦ False.elim
    exact hgrows.mono (fun _ _ ↦ trivial) fun _ ↦ False.elim

end BackupStore

/-! ## A small project -/

namespace SmallProject

/-- A schema with one entity and one artifact. -/
def entries : List (Value × Value) :=
  [(.text "Post", .map [(.text "fields", .map [(.text "title", .text "string")]),
    (.text "generate", .list [.text "model"])])]

def schema : Schema :=
  [("Post", ⟨[("title", "string")], [], [], .listed ["model"], [], [], []⟩)]

theorem accepted : schema.Accepted (.map entries) := ⟨by decide, entries, rfl, rfl⟩

/-- A project in the working directory, without backups. -/
def settings (policy : ConflictPolicy) : Settings :=
  { Settings.default with basePath := "", stubPath := none, backup := false, policy }

def moment : Moment := ⟨⟨2024, 1, 1⟩, 0, 0, 0⟩

/-- The model of the entity is there. -/
def disk : Disk where
  nodes := [(["app"], .dir), (["app", "Models"], .dir),
    (["app", "Models", "Post.php"], .file (Text.encode "<?php"))]
  cwd := []

def scene : Scene := ⟨disk, [], []⟩

/-- The entity, worked out. -/
def configurations : List Configuration :=
  ((Configuration.buildAll schema).run.run Memory.empty).1.toOption.getD []

theorem exists_memory :
    ∃ memory, (Configuration.buildAll schema).run.run Memory.empty = (.ok configurations, memory) := by
  obtain ⟨cs, memory, hrun, -⟩ := exists_run_of_passes (Configuration.buildAll schema) Memory.empty
    (fun _ _ ↦ true) (by decide +kernel)
  refine ⟨memory, ?_⟩
  rw [configurations, hrun]
  rfl

end SmallProject

end Scaffold
