import Scaffold.Proofs.Backup.Recovery
import Scaffold.Proofs.Backup.Stamps
import Scaffold.Proofs.Disk.Puts

/-!
# Backups one after the other

What is in the directory of the backups after a series of backups: a session for each of them, under
the names that are given away in their order, each with its manifest. Other things may happen between
two backups as long as they spare that directory.
-/

namespace Scaffold

/-- Some of the entities of a schema that passes validation. -/
def Configuration.OfSchema (cs : List Configuration) : Prop :=
  ∃ raw schema all memory, Schema.Accepted raw schema ∧
    (Configuration.buildAll schema).run.run Memory.empty = (.ok all, memory) ∧ cs.Subperm all

theorem Configuration.OfSchema.words {cs : List Configuration} (h : OfSchema cs) :
    ∀ c ∈ cs, c.studly = "" ∨ IsWord c.studly := by
  obtain ⟨raw, schema, all, memory, haccepted, hbuilt, hsub⟩ := h
  exact fun c hc ↦ (Configuration.built haccepted hbuilt).words c (hsub.subset hc)

namespace BackupStore

open Disk DiskOp

variable {b : BackupStore} {s s₀ : Scene} {d d' d₀ : Disk} {m : Moment} {name : String}
  {made : List (Moment × BackupManifest)}

/-! ## What a backup keeps -/

section Preserves

variable {inv : Disk → Prop} {session : Path}

theorem preserves_backupFile {a : Artifact} {entity : String} {o : Path}
    (hcopy : Preserves inv (copyFile (b.root ++ o) (session ++ copyPath a entity o))) :
    Run.PreservesDisk inv (b.backupFile session a entity o) := by
  refine .bind (Run.preserves_query _) fun there ↦ ?_
  cases there with
  | false => exact .pure _
  | true =>
    refine .bind (Run.preserves_attempt (Run.preserves_onDisk hcopy)) fun result ↦ ?_
    cases result <;> exact .bind (Run.preserves_say _) fun _ ↦ .pure _

theorem preserves_backupArtifact {c : Configuration} {a : Artifact}
    (hcopy : ∀ o, Preserves inv (copyFile (b.root ++ o) (session ++ copyPath a c.studly o))) :
    Run.PreservesDisk inv (b.backupArtifact session c a) := by
  rw [backupArtifact]
  split
  · exact .bind (preserves_backupFile (hcopy _)) fun _ ↦ .pure _
  · refine .bind (Run.preserves_query _) fun names ↦ ?_
    cases names with
    | nil => exact .pure _
    | cons file rest => exact .bind (preserves_backupFile (hcopy _)) fun _ ↦ .pure _

theorem preserves_backupEntities {cs : List Configuration} (hcopy : ∀ c ∈ cs, ∀ a o,
      Preserves inv (copyFile (b.root ++ o) (session ++ copyPath a c.studly o))) :
    Run.PreservesDisk inv (b.backupEntities session cs) :=
  .bind (.mapM fun c hc ↦ .bind (.mapM fun a _ ↦ preserves_backupArtifact (hcopy c hc a)) fun _ ↦
    .pure _) fun _ ↦ .pure _

theorem preserves_backupShared
    (hcopy : Preserves inv (copyFile (b.root ++ Path.ofString b.shared)
      (session ++ (⟨0, ["routes", (b.root ++ Path.ofString b.shared).name]⟩ : Path)))) :
    Run.PreservesDisk inv (b.backupShared session) := by
  refine .bind (Run.preserves_query _) fun there ↦ ?_
  cases there with
  | false => exact .pure _
  | true =>
    refine .bind (Run.preserves_attempt (Run.preserves_onDisk hcopy)) fun result ↦ ?_
    cases result <;> exact .bind (Run.preserves_say _) fun _ ↦ .pure _

theorem preserves_create (hput : ∀ d place n, inv d → inv (d.put place n)) (b : BackupStore)
    (cs : List Configuration) (m : Moment) : Run.PreservesDisk inv (b.create cs m) :=
  .bind_get fun _ ↦ .bind (Run.preserves_query _) fun _ ↦
    .bind (Run.preserves_onDisk (preserves_makeNewDir hput _)) fun _ ↦
      .bind (preserves_backupEntities fun _ _ _ _ ↦ preserves_copyFile hput _ _) fun _ ↦
        .bind (preserves_backupShared (preserves_copyFile hput _ _)) fun _ ↦
          .bind (Run.preserves_onDisk (preserves_write hput _ _)) fun _ ↦
            .bind (Run.preserves_say _) fun _ ↦ .pure _

end Preserves

/-! ## A series -/

/-- The directory of the backups, what is in it and the way to it are left alone. -/
structure Spares (b : BackupStore) (d d' : Disk) : Prop where
  wellFormed : d'.WellFormed
  cwd : d'.cwd = d.cwd
  way : ∀ q, q <+: b.folder.parts → d.node? (d.resolve ⟨b.folder.slashes, q⟩) = some .dir →
    d'.node? (d.resolve ⟨b.folder.slashes, q⟩) = some .dir
  listed : (d'.namesIn (d.resolve b.folder)).Perm (d.namesIn (d.resolve b.folder))
  below : ∀ l, d.resolve b.folder <+: l → l ≠ d.resolve b.folder → d'.node? l = d.node? l

/-- Backups made one after the other, each at its moment. Between two of them anything may happen
that spares the directory of the backups. -/
inductive Series (b : BackupStore) (s₀ : Scene) : List (Moment × BackupManifest) → Scene → Prop
  | start : Series b s₀ [] s₀
  | create {made : List (Moment × BackupManifest)} {s t : Scene} (h : Series b s₀ made s)
      {cs : List Configuration} (hcs : Configuration.OfSchema cs) {m : Moment}
      {manifest : BackupManifest} (hrun : (b.create cs m).run.run s = (.ok manifest, t)) :
      Series b s₀ (made ++ [(m, manifest)]) t
  | elsewhere {made : List (Moment × BackupManifest)} {s t : Scene} (h : Series b s₀ made s)
      (hspares : b.Spares s.disk t.disk) : Series b s₀ made t

/-- No backups have been made: nothing is in their directory, if it is there at all. -/
structure Unused (b : BackupStore) (d : Disk) : Prop where
  wellFormed : d.WellFormed
  anchored : d.Anchored b.folder
  empty : ∀ name, d.node? (d.resolve b.folder ++ [name]) = none

theorem Unused.not_prefix (h : b.Unused d) {l : Location} (hl : (d.node? l).isSome) :
    ¬d.resolve b.folder ++ [name] <+: l := by
  intro hpre
  have hnone := h.empty name
  by_cases heq : d.resolve b.folder ++ [name] = l
  · rw [heq] at hnone
    rw [hnone] at hl
    cases hl
  · rw [h.wellFormed.isSome_of_prefix hpre heq hl] at hnone
    cases hnone

/-- A session with its manifest is in the directory of the backups, which is at `place`. -/
structure Kept (b : BackupStore) (place : Location) (manifest : BackupManifest) (d : Disk) : Prop where
  name : IsSessionName manifest.timestamp
  legible : manifest.Legible
  directory : manifest.directory = (b.folder.child manifest.timestamp).toString
  fault : pathFault? ((b.folder.child manifest.timestamp).child manifestName) = none
  isDir : d.node? (place ++ [manifest.timestamp]) = some .dir
  written : d.file? (place ++ [manifest.timestamp, manifestName]) = some (Text.encode manifest.json)

/-- The directory of the backups can still be reached as at first. -/
structure Reaches (b : BackupStore) (d₀ d : Disk) : Prop where
  wellFormed : d.WellFormed
  cwd : d.cwd = d₀.cwd
  way : ∀ q, q <+: b.folder.parts → d₀.node? (d₀.resolve ⟨b.folder.slashes, q⟩) = some .dir →
    d.node? (d₀.resolve ⟨b.folder.slashes, q⟩) = some .dir

/-- The names of sessions, with their moments. -/
def given (made : List (Moment × BackupManifest)) : List (Moment × String) :=
  made.map fun x ↦ (x.1, x.2.timestamp)

theorem map_fst_given (made : List (Moment × BackupManifest)) :
    (given made).map Prod.fst = made.map Prod.fst := by
  rw [given, List.map_map]
  rfl

theorem map_snd_given (made : List (Moment × BackupManifest)) :
    (given made).map Prod.snd = made.map (·.2.timestamp) := by
  rw [given, List.map_map]
  rfl

/-- After a series of backups from an unused directory on, the directory holds their sessions. -/
structure Holds (b : BackupStore) (d₀ : Disk) (made : List (Moment × BackupManifest)) (d : Disk) :
    Prop extends Reaches b d₀ d where
  once : (d.namesIn (d₀.resolve b.folder)).Nodup
  names : ∀ name, (d.node? (d₀.resolve b.folder ++ [name])).isSome ↔
    name ∈ made.map (·.2.timestamp)
  common : ∀ x ∈ given made, x.1.IsCommon
  numbered : Numbered (given made)
  kept : ∀ x ∈ made, b.Kept (d₀.resolve b.folder) x.2 d

theorem Unused.holds (h : b.Unused d) : b.Holds d [] d where
  wellFormed := h.wellFormed
  cwd := rfl
  way _ _ := id
  once := by
    have hnil : d.namesIn (d.resolve b.folder) = [] := by
      refine List.eq_nil_iff_forall_not_mem.2 fun name hname ↦ ?_
      rw [mem_namesIn, h.empty] at hname
      cases hname
    rw [hnil]
    exact List.nodup_nil
  names name := by simp [h.empty]
  common := by simp [given]
  numbered := .none
  kept := by simp

/-- The way to a path may be followed if nothing on it has gone. -/
theorem anchoredFrom_of_way {place : Location} {parts : List String}
    (h : d.AnchoredFrom place parts)
    (hway : ∀ q, q <+: parts → d.node? (follow place q) = some .dir →
      d'.node? (follow place q) = some .dir) : d'.AnchoredFrom place parts := by
  induction parts generalizing place with
  | nil => trivial
  | cons part rest ih =>
    have hrest (q : List String) (hq : q <+: rest) : part :: q <+: part :: rest :=
      List.cons_prefix_cons.2 ⟨rfl, hq⟩
    by_cases hpart : part = ".."
    · subst hpart
      simp only [AnchoredFrom, if_true] at h ⊢
      exact ⟨hway [] (List.nil_prefix) h.1, ih h.2 fun q hq ↦ hway _ (hrest q hq)⟩
    · simp only [AnchoredFrom, hpart, if_false] at h ⊢
      refine ih h fun q hq hdir ↦ ?_
      rw [← follow_down place q hpart] at hdir ⊢
      exact hway _ (hrest q hq) hdir

namespace Reaches

variable (hanchored : d₀.Anchored b.folder) (h : b.Reaches d₀ d)

include h

theorem resolve_eq (p : Path) : d.resolve p = d₀.resolve p := resolve_congr h.cwd p

include hanchored

theorem anchored : d.Anchored b.folder := by
  have hstart : d.start b.folder = d₀.start b.folder := by rw [Disk.start, Disk.start, h.cwd]
  rw [Anchored, hstart]
  exact anchoredFrom_of_way hanchored h.way

/-- The directory and what is in it are found under their paths. -/
theorem locate_eq {names : List String} (hplain : ".." ∉ names)
    (hfault : pathFault? ⟨b.folder.slashes, b.folder.parts ++ names⟩ = none)
    (hsome : (d.node? (d₀.resolve b.folder ++ names)).isSome) :
    d.locate ⟨b.folder.slashes, b.folder.parts ++ names⟩ = .ok (d₀.resolve b.folder ++ names) := by
  have hplace : d.resolve ⟨b.folder.slashes, b.folder.parts ++ names⟩ =
      d₀.resolve b.folder ++ names := by
    rw [h.resolve_eq]
    exact resolve_append _ _ _ hplain
  have hanchor : d.Anchored ⟨b.folder.slashes, b.folder.parts ++ names⟩ :=
    (anchoredFrom_append _ _ _ _).2 ⟨h.anchored hanchored, anchoredFrom_of_plain _ _ hplain⟩
  rw [locate_eq_walk hfault, h.wellFormed.walk_eq_ok hanchor (by
    rw [← resolve_eq_follow, hplace]
    exact hsome), ← resolve_eq_follow, hplace]

end Reaches

namespace Holds

variable (hunused : b.Unused d₀) (h : b.Holds d₀ made d) {x : Moment × BackupManifest}
  (hx : x ∈ made)

include hunused h hx

theorem locate_child : d.locate (b.folder.child x.2.timestamp) =
    .ok (d₀.resolve b.folder ++ [x.2.timestamp]) := by
  have hkept := h.kept x hx
  have hplain : ".." ∉ [x.2.timestamp] := fun hmem ↦
    hkept.name.char_not_mem (by decide) (List.mem_singleton.1 hmem ▸ (by decide : '.' ∈ "..".toList))
  exact h.locate_eq hunused.anchored hplain (pathFault?_of_append hkept.fault) (by rw [hkept.isDir]; rfl)

theorem isDir_child : d.isDir (b.folder.child x.2.timestamp) = .ok true := by
  have hlocate := h.locate_child hunused hx
  refine isDir_eq_true_iff.2 ⟨by rw [hlocate, ← locate_eq_resolve hlocate], ?_⟩
  rw [← locate_eq_resolve hlocate, (h.kept x hx).isDir]

theorem readBytes_manifest : d.readBytes ((b.folder.child x.2.timestamp).child manifestName) =
    .ok (Text.encode x.2.json) := by
  have hkept := h.kept x hx
  have hplain : ".." ∉ [x.2.timestamp, manifestName] := by
    rw [List.mem_pair, not_or]
    exact ⟨hkept.name.ne_dots.symm, by decide⟩
  have hpath : (b.folder.child x.2.timestamp).child manifestName =
      ⟨b.folder.slashes, b.folder.parts ++ [x.2.timestamp, manifestName]⟩ := by
    simp [Path.child]
  have hfile := file?_eq_some_iff.1 hkept.written
  have hlocate := h.locate_eq hunused.anchored hplain (hpath ▸ hkept.fault) (by rw [hfile]; rfl)
  rw [hpath]
  refine readBytes_eq_ok_iff.2 ⟨by rw [hlocate, ← locate_eq_resolve hlocate], ?_⟩
  rw [← locate_eq_resolve hlocate, hkept.written]

theorem locate_folder : d.locate b.folder = .ok (d₀.resolve b.folder) := by
  have hkept := h.kept x hx
  have hfault : pathFault? ⟨b.folder.slashes, b.folder.parts ++ []⟩ = none := by
    rw [List.append_nil]
    exact pathFault?_of_append (pathFault?_of_append hkept.fault)
  have hdir : d.node? (d₀.resolve b.folder ++ []) = some .dir := by
    rw [List.append_nil]
    exact (h.wellFormed.parent _ _ _ hkept.isDir).1
  have hplain : ".." ∉ ([] : List String) := List.not_mem_nil
  simpa using h.locate_eq hunused.anchored hplain hfault (by rw [hdir]; rfl)

theorem isDir_folder : d.isDir b.folder = .ok true := by
  have hlocate := h.locate_folder hunused hx
  refine isDir_eq_true_iff.2 ⟨by rw [hlocate, ← locate_eq_resolve hlocate], ?_⟩
  rw [← locate_eq_resolve hlocate, (h.wellFormed.parent _ _ _ (h.kept x hx).isDir).1]

/-- The directory lists the sessions. -/
theorem list_perm : (d.list b.folder).Perm (made.map (·.2.timestamp)) := by
  have hlist : d.list b.folder = d.namesIn (d₀.resolve b.folder) := by
    rw [Disk.list, h.locate_folder hunused hx]
  have hnodup := h.numbered.nodup h.common
  rw [map_snd_given] at hnodup
  rw [hlist, List.perm_ext_iff_of_nodup h.once hnodup]
  exact fun name ↦ mem_namesIn.trans (h.names name)

omit hx

/-- The names in use are those that have been given away. -/
theorem mem_list : name ∈ d.list b.folder ↔ name ∈ made.map (·.2.timestamp) := by
  constructor
  · intro hname
    rw [Disk.list] at hname
    split at hname
    · next l hlocate =>
      rw [locate_eq_resolve hlocate, h.resolve_eq, mem_namesIn, h.names] at hname
      exact hname
    · cases hname
  · intro hname
    obtain ⟨x, hx, -⟩ := List.mem_map.1 hname
    exact (h.list_perm hunused hx).mem_iff.2 hname

theorem freeName_eq (hm : m.IsCommon) : freeName (d.list b.folder) m.backupStamp =
    sessionName m.backupStamp (((given made).map Prod.fst).count m) := by
  refine BackupStore.freeName_eq hm fun k ↦ ?_
  rw [h.mem_list hunused, ← map_snd_given, h.numbered.mem_iff h.common hm]

end Holds

theorem child_injective {name' : String} (h : b.folder.child name = b.folder.child name') :
    name = name' := by
  have hparts := congrArg Path.parts h
  exact List.singleton_inj.1 (List.append_cancel_left hparts)

/-- A session that is opened and filled changes nothing in the directory but itself. -/
theorem Opening.changes_of_grows {session : Path} {place : Location} {d₁ : Disk}
    (h : Opening b m session d d₁) (hanchor : d.Anchored session) (hplace : d.resolve session = place)
    (hgrows : Grows (Folders (d₁.resolve session)) (Stored (d₁.resolve session)) d₁ d') :
    Changes (fun l ↦ l <+: place ∨ place <+: l) (fun l ↦ place <+: l) d d' := by
  have hresolve : d₁.resolve session = place := by rw [h.changes.resolve_eq, hplace]
  rw [hresolve] at hgrows
  refine ((hplace ▸ h.above hanchor).mono (fun _ ↦ Or.inl) fun _ ↦ False.elim).trans
    (hgrows.toChanges.mono ?_ fun l hl ↦ hl.1)
  rintro _ ⟨q, rfl, -⟩
  exact .inr (List.prefix_append _ _)

theorem append_singleton_prefix_iff {place : Location} {name' : String} {rest : List String} :
    place ++ [name] <+: place ++ name' :: rest ↔ name = name' := by
  rw [List.prefix_append_right_inj, List.cons_prefix_cons]
  simp

/-- A backup adds its session to the directory, under the next name of its moment. -/
theorem Holds.ends_create (hunused : b.Unused d₀) (h : b.Holds d₀ made s.disk)
    (hfolder : b.folder.Spelled) {api : Bool} (hshared : b.shared = RouteFile.relativePath api)
    {cs : List Configuration} (hcs : Configuration.OfSchema cs) (hm : m.IsCommon) :
    Ends (b.create cs m) s
      (fun manifest t ↦ b.Holds d₀ (made ++ [(m, manifest)]) t.disk) fun _ _ ↦ True := by
  have hput (d : Disk) (place : Location) (n : Node) (hd : (d.namesIn (d₀.resolve b.folder)).Nodup) :
      ((d.put place n).namesIn (d₀.resolve b.folder)).Nodup := nodup_namesIn_put hd place n
  have honce := preserves_create hput b cs m s h.once
  refine ((BackupStore.ends_create h.wellFormed hfolder hshared hcs.words).and honce).mono ?_
    fun _ _ _ ↦ trivial
  rintro manifest t ⟨⟨-, session, d₁, hopening, hmade⟩, honce⟩
  obtain ⟨hsession, hsessionName⟩ := hmade.session_eq
  have hname : manifest.timestamp =
      sessionName m.backupStamp (((given made).map Prod.fst).count m) := by
    rw [← h.freeName_eq hunused hm]
    exact child_injective (hsession.symm.trans hopening.name)
  generalize hplace : d₀.resolve b.folder = place at *
  have hplain : ".." ∉ [manifest.timestamp] := by
    rw [List.mem_singleton]
    exact hsessionName.ne_dots.symm
  have hresolve : s.disk.resolve session = place ++ [manifest.timestamp] := by
    rw [hsession, h.resolve_eq, ← hplace]
    exact resolve_append _ _ _ hplain
  have hanchor : s.disk.Anchored session := by
    rw [hsession]
    exact (anchoredFrom_append _ _ _ _).2
      ⟨h.anchored hunused.anchored, anchoredFrom_of_plain _ _ hplain⟩
  have hchanges := hopening.changes_of_grows hanchor hresolve hmade.grows
  have hnew : t.disk.node? (place ++ [manifest.timestamp]) = some .dir := by
    have hdir := (isDir_eq_true_iff.1 hmade.new.isDir).2
    rw [hopening.changes.resolve_eq, hresolve] at hdir
    exact hmade.grows.keeps _ hdir
  have hfree : ∀ x ∈ made, manifest.timestamp ≠ x.2.timestamp := by
    intro x hx heq
    have hfree := hopening.free
    rw [hresolve, heq, ← hplace, (h.kept x hx).isDir] at hfree
    cases hfree
  -- Nothing in the directory changes apart from the session.
  have hold (other : String) (rest : List String) (hother : manifest.timestamp ≠ other) :
      t.disk.node? (place ++ other :: rest) = s.disk.node? (place ++ other :: rest) := by
    have hbelow : ¬place ++ [manifest.timestamp] <+: place ++ other :: rest := fun hpre ↦
      hother (append_singleton_prefix_iff.1 hpre)
    refine hchanges.node?_eq ?_ hbelow
    rintro (hpre | hpre)
    · rw [List.prefix_append_right_inj, List.cons_prefix_cons] at hpre
      exact hother hpre.1.symm
    · exact hbelow hpre
  have hmanifest := readBytes_eq_ok_iff.1 hmade.manifest
  refine ⟨⟨hchanges.wellFormed, hchanges.cwd.trans h.cwd, fun q hq hdir ↦
    hchanges.keeps _ (h.way q hq hdir)⟩, ?_, fun name ↦ ?_, ?_, ?_, fun x hx ↦ ?_⟩
  · rwa [hplace]
  · rw [hplace, List.map_append, List.mem_append, ← h.names, hplace, List.map_singleton,
      List.mem_singleton]
    by_cases heq : manifest.timestamp = name
    · rw [← heq, hnew]
      simp
    · rw [hold name [] heq]
      simp [Ne.symm heq]
  · rw [given, List.map_append, List.forall_mem_append]
    exact ⟨h.common, by simpa using hm⟩
  · rw [given, List.map_append, List.map_singleton, hname]
    exact .next h.numbered m
  · rw [hplace]
    rcases List.mem_append.1 hx with hx | hx
    · have hkept := h.kept x hx
      rw [hplace] at hkept
      exact ⟨hkept.name, hkept.legible, hkept.directory, hkept.fault,
        (hold _ [] (hfree x hx)).trans hkept.isDir,
        (file?_congr (hold _ [manifestName] (hfree x hx))).trans hkept.written⟩
    · obtain rfl := List.mem_singleton.1 hx
      refine ⟨hsessionName, hmade.legible, hsession ▸ hmade.directory,
        pathFault?_of_locate (hsession ▸ hmanifest.1), hnew, ?_⟩
      have hfile := hmanifest.2
      have hlast : t.disk.resolve (session.child manifestName) = t.disk.resolve session ++ [manifestName] :=
        resolve_append _ _ _ (by decide)
      rw [hlast, hchanges.resolve_eq, hresolve] at hfile
      simpa using hfile

theorem Holds.of_spares (h : b.Holds d₀ made d) (hspares : b.Spares d d') : b.Holds d₀ made d' := by
  have hbelow := hspares.below
  have hlisted := hspares.listed
  have hway := hspares.way
  simp only [h.resolve_eq] at hbelow hlisted hway
  have hsame (name : String) (rest : List String) :
      d'.node? (d₀.resolve b.folder ++ name :: rest) = d.node? (d₀.resolve b.folder ++ name :: rest) :=
    hbelow _ (List.prefix_append _ _) (by simp)
  refine ⟨⟨hspares.wellFormed, hspares.cwd.trans h.cwd, fun q hq hdir ↦ hway q hq (h.way q hq hdir)⟩,
    hlisted.nodup_iff.2 h.once, fun name ↦ ?_, h.common, h.numbered, fun x hx ↦ ?_⟩
  · rw [hsame name []]
    exact h.names name
  · have hkept := h.kept x hx
    exact ⟨hkept.name, hkept.legible, hkept.directory, hkept.fault, (hsame _ []).trans hkept.isDir,
      (file?_congr (hsame _ [manifestName])).trans hkept.written⟩

/-- What a series of backups leaves in an unused directory. -/
theorem Series.holds {api : Bool} (h : b.Series s₀ made s) (hunused : b.Unused s₀.disk)
    (hfolder : b.folder.Spelled) (hshared : b.shared = RouteFile.relativePath api)
    (hcommon : ∀ x ∈ made, x.1.IsCommon) : b.Holds s₀.disk made s.disk := by
  induction h with
  | start => exact hunused.holds
  | @create made s t h cs hcs m manifest hrun ih =>
    have hbefore := ih fun x hx ↦ hcommon x (List.mem_append_left _ hx)
    have hm := hcommon _ (List.mem_append_right _ (List.mem_singleton_self _))
    exact (ends_of_run_ok hrun).1 (hbefore.ends_create hunused hfolder hshared hcs hm)
  | elsewhere h hspares ih => exact (ih hcommon).of_spares hspares

end BackupStore

end Scaffold
