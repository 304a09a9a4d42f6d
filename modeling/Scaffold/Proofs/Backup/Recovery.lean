import Scaffold.Proofs.Backup.Creation
import Scaffold.Proofs.Backup.Restoring

/-!
# Recovering from a backup

Whatever happens after a backup, a rollback to it brings back every file that the backup knows and
leaves all others alone, unless something is in its way or the disk does not answer what it asks.
-/

namespace Scaffold

namespace BackupStore

open Disk DiskOp

variable {b : BackupStore} {session : Path} {m : BackupManifest} {d₀ d d' : Disk} {e : BackupEntry}
  {l : Location} {s : Scene}

/-! ## Since a backup -/

/-- What may have happened since a backup: the session is as it was, no directory stands where a
rollback changes something, and no file stands on the way to one that is restored. -/
structure Since (b : BackupStore) (m : BackupManifest) (d d' : Disk) : Prop where
  wellFormed : d'.WellFormed
  cwd : d'.cwd = d.cwd
  anchored : d'.Anchored b.root
  root : d.node? (d.resolve b.root) = some .dir → d'.node? (d.resolve b.root) = some .dir
  session : d'.locate (b.folder.child m.timestamp) = d.locate (b.folder.child m.timestamp)
  untouched : ∀ l, d.resolve (b.folder.child m.timestamp) <+: l → d'.node? l = d.node? l
  free : ∀ e ∈ m.tracked, ∀ l, b.Touches d e l → d'.node? l ≠ some .dir
  clear : ∀ e ∈ m.tracked, ∀ s, e.original = .text s → e.backedUp = true →
    ∀ q, q <+: (Path.ofString s).parts → q ≠ (Path.ofString s).parts →
      d'.file? (d.resolve b.root ++ q) = none

theorem touches_congr (h : d'.cwd = d.cwd) : b.Touches d' e l ↔ b.Touches d e l := by
  simp only [Touches, resolve_congr h]

/-- No directory of a session stands at the place of a target. -/
theorem New.not_folders {o : Path} (h : New b session d) (ho : o.IsTarget) {place : Location} :
    ¬Folders (d.resolve session) (place ++ o.parts) := by
  obtain ⟨dirs, file, rfl, -, -, hphp, -⟩ := ho
  obtain ⟨name, hplace, hname⟩ := h.exists_place
  rw [← List.append_assoc]
  refine not_folders_of_php hphp fun heq ↦ ?_
  rw [hplace] at heq
  obtain rfl := List.singleton_inj.1 (List.append_inj' heq rfl).2
  exact ne_of_endsWith hphp (.inl (hname.char_not_mem (by decide))) rfl

namespace Made

variable {cs : List Configuration} (h : Made b cs session m d₀ d)

include h

theorem session_eq : session = b.folder.child m.timestamp ∧ IsSessionName m.timestamp := by
  obtain ⟨name, hsession, hname⟩ := h.new.name
  have hstamp : m.timestamp = name := by
    rw [h.timestamp, hsession, Path.name, Path.child, List.getLast?_concat]
    rfl
  rw [hstamp]
  exact ⟨hsession, hname⟩

/-- What a backup made can be used on a later disk. -/
theorem later (hanchor : d₀.Anchored b.root) (hsince : Since b m d d') :
    Later b session m d₀ d' := by
  have hcwd := h.grows.cwd
  have hlocate : d.locate session = .ok (d₀.resolve session) :=
    h.grows.locate_eq_ok (isDir_eq_true_iff.1 h.new.isDir).1
  have hsession := hsince.session
  have huntouched := hsince.untouched
  rw [← h.session_eq.1] at hsession huntouched
  rw [h.grows.resolve_eq] at huntouched
  refine ⟨hsince.wellFormed, hsince.cwd.trans hcwd, hsince.anchored, fun hroot ↦ ?_,
    hsession.trans hlocate, ?_, fun e he o c hc horiginal hcopy ↦ ?_, fun e he l hl ↦ ?_,
    fun e he s horiginal hbacked q hq hne ↦ ?_⟩
  · have := hsince.root
    rw [h.grows.resolve_eq] at this
    exact this (h.grows.keeps _ hroot)
  · obtain ⟨hchild, hfile⟩ := readBytes_eq_ok_iff.1 h.manifest
    have hplace (p : Path) : d'.resolve p = d₀.resolve p := resolve_congr (hsince.cwd.trans hcwd) p
    have hmanifest : d₀.resolve (session.child manifestName) = d₀.resolve session ++ [manifestName] :=
      resolve_append _ _ _ (by decide)
    rw [h.grows.resolve_eq, hmanifest] at hfile
    have hfile' : d'.file? (d₀.resolve session ++ [manifestName]) = some (Text.encode m.json) := by
      rw [file?_congr (huntouched _ (List.prefix_append _ _)), hfile]
    refine readBytes_eq_ok_iff.2 ⟨?_, by rw [hplace, hmanifest, hfile']⟩
    rw [locate_eq_walk (pathFault?_of_locate hchild)]
    refine hsince.wellFormed.walk_eq_ok ((anchoredFrom_append _ _ _ _).2
      ⟨anchored_of_locate (hsession.trans hlocate), anchoredFrom_of_plain _ _ (by decide)⟩) ?_
    rw [← resolve_eq_follow, hplace, hmanifest, file?_eq_some_iff.1 hfile']
    rfl
  · rw [file?_congr (huntouched _ (List.prefix_append _ _))]
    refine (h.held hanchor o c hc).resolve_left fun hnone ↦ ?_
    have hstored := (h.entered e he).stored c hc.copy hcopy
    rw [hnone] at hstored
    cases hstored
  · exact hsince.free e he l ((touches_congr hcwd).2 hl)
  · have := hsince.clear e he s horiginal hbacked q hq hne
    rwa [h.grows.resolve_eq] at this

theorem opened (hanchor : d₀.Anchored b.root) (hroot : b.root.Spelled) : Opened b session d₀ :=
  ⟨h.new, hanchor, hroot⟩

/-- Everything outside of the session may change since a backup, if no directory comes where a
rollback changes something. -/
theorem since {dirs files : Location → Prop} (hanchor : d₀.Anchored b.root)
    (hchanges : Changes dirs files d d')
    (hsession : ∀ l, d₀.resolve session <+: l → ¬dirs l ∧ ¬files l)
    (hdirs : ∀ e ∈ m.tracked, ∀ l, b.Touches d₀ e l → ¬dirs l) : Since b m d d' := by
  have hcwd := h.grows.cwd
  have hlocate : d.locate session = .ok (d₀.resolve session) :=
    h.grows.locate_eq_ok (isDir_eq_true_iff.1 h.new.isDir).1
  refine ⟨hchanges.wellFormed, hchanges.cwd, hchanges.anchored (h.grows.anchored hanchor),
    hchanges.keeps _, ?_, fun l hl ↦ ?_, fun e he l hl hdir ↦ ?_,
    fun e he s horiginal hbacked q hq hne ↦ ?_⟩
  · rw [← h.session_eq.1, hlocate, hchanges.locate_eq_ok hlocate]
  · rw [← h.session_eq.1, h.grows.resolve_eq] at hl
    exact hchanges.node?_eq (hsession l hl).1 (hsession l hl).2
  · have hknows := (h.entered e he).knows hanchor
    rw [touches_congr hcwd] at hl
    rcases hchanges.comes l hdir with hdir | hdir
    · refine (h.grows.comes l hdir).elim (hknows.node?_ne_dir hl) ?_
      obtain ⟨o, ho, rfl⟩ := hknows.exists_target hl
      exact h.new.not_folders ho
    · exact hdirs e he l hl hdir
  · obtain ⟨o, c, hc, rfl, hfile⟩ := ((h.entered e he).knows hanchor).exists_kept horiginal hbacked
    rw [hc.original.ofString_toString] at hq hne
    obtain ⟨content, hcontent⟩ := Option.isSome_iff_exists.1 hfile
    have hdir := h.new.wellFormed.isSome_of_prefix
      ((List.prefix_append_right_inj (d₀.resolve b.root)).2 hq)
      (fun heq ↦ hne (List.append_cancel_left heq)) (by rw [file?_eq_some_iff.1 hcontent]; rfl)
    rw [h.grows.resolve_eq, file?_eq_none_iff]
    exact .inr (hchanges.keeps _ (h.grows.keeps _ hdir))

/-- A rollback of a backup on a disk on which it can be used: it succeeds exactly if the disk
answers all that is asked. -/
theorem ends_rollback (hanchor : d₀.Anchored b.root) (hroot : b.root.Spelled)
    (hlater : Later b session m d₀ s.disk) :
    Ends (b.rollback m.timestamp) s
      (fun r t ↦ (r.isSuccess = true ↔ ∀ e ∈ m.tracked, b.Answers s.disk e) ∧
        Reverts b d₀ m.tracked s.disk t.disk ∧ (r.isSuccess = true → ∀ e ∈ m.tracked, ∀ l,
          b.Touches d₀ e l → t.disk.file? l = d₀.file? l))
      fun _ t ↦ Reverts b d₀ m.tracked s.disk t.disk ∧ ¬∀ e ∈ m.tracked, b.Answers s.disk e := by
  obtain ⟨hsession, hname⟩ := h.session_eq
  refine (hlater.ends_rollback (h.opened hanchor hroot) (fun e he ↦ (h.entered e he).knows hanchor)
    h.legible hsession hname h.directory).mono ?_ fun _ _ ↦ id
  rintro r t ⟨steps, rfl, hundoes⟩
  exact ⟨isSuccess_iff.trans hundoes.noneFailed_iff, hundoes.reverts, fun hsuccess ↦
    hundoes.restored (isSuccess_iff.1 hsuccess)⟩

end Made

/-! ## Backup and rollback -/

/-- What a rollback that succeeds comes to: on the files of the backup it goes back from the second
disk to the first, and it leaves all others as they are. -/
structure Recovers (b : BackupStore) (cs : List Configuration) (m : BackupManifest)
    (d d₁ d' : Disk) : Prop where
  /-- Every artifact with a path of its own is there as it was, or not there as it was not. -/
  fixed : ∀ c ∈ cs, ∀ a o, Artifact.fixedPath? a c = some o →
    d'.node? (d.resolve (b.root ++ o)) = d.node? (d.resolve (b.root ++ o))
  /-- So is every file of which the path was recorded, -/
  recorded : ∀ e ∈ m.tracked, ∀ s, e.original = .text s →
    d'.node? (d.resolve (b.root ++ Path.ofString s)) = d.node? (d.resolve (b.root ++ Path.ofString s))
  /-- and the route file. -/
  routes : d'.node? (d.resolve (b.root ++ Path.ofString b.shared)) =
    d.node? (d.resolve (b.root ++ Path.ofString b.shared))
  /-- No migration is left that fits a pattern that was recorded. -/
  patterns : ∀ e ∈ m.tracked, ∀ s, e.pattern = .text s → ∃ table, s = Migration.pathPattern table ∧
    ∀ name, Text.endsWith name (Migration.ending table) = true →
      d'.node? (d.resolve (b.root ++ Migration.folder) ++ [name]) = none
  others : ∀ l, (∀ e ∈ m.tracked, ¬b.Touches d e l) → d'.file? l = d₁.file? l

theorem Knows.exists_table (h : Knows b session d e) {s : String} (hpattern : e.pattern = .text s) :
    ∃ table, s = Migration.pathPattern table := by
  cases h with
  | absent ho hnone hopen => cases hpattern
  | kept hc hfile hfault hcopy => cases hpattern
  | left ho herror => cases hpattern
  | @fits table htable hnone hopen => exact ⟨table, (Value.text.inj hpattern).symm⟩

/-- If everything that was there has been copied, restored locations are as they were before the
backup. -/
theorem Made.recovers {cs : List Configuration} {d₁ d₂ : Disk} (h : Made b cs session m d₀ d₁)
    (hopens : Changes (Named session.parts) nowhere d d₀) (hopened : Opened b session d₀)
    (hwords : ∀ c ∈ cs, c.studly = "" ∨ IsWord c.studly)
    (hcomplete : ∀ e ∈ m.tracked, e.existed = e.backedUp) (hlater : Later b session m d₀ d₂)
    (hreverts : Reverts b d₀ m.tracked d₂ d')
    (hrestored : ∀ e ∈ m.tracked, ∀ l, b.Touches d₀ e l → d'.file? l = d₀.file? l) :
    Recovers b cs m d d₂ d' := by
  have hknows := fun e he ↦ (h.entered e he).knows hopened.anchored
  have hlater' := hlater.reverts hopened hknows hreverts (List.Subset.refl _)
  have hnode (e : BackupEntry) (he : e ∈ m.tracked) (l : Location) (hl : b.Touches d₀ e l) :
      d'.node? l = d.node? l := by
    have hfree : d.node? l ≠ some .dir := fun hdir ↦
      (hknows e he).node?_ne_dir hl (hopens.keeps l hdir)
    rw [node?_eq_of_file? (hlater'.free e he l hl), node?_eq_of_file? hfree,
      hrestored e he l hl, hopens.same l id]
  have hrecorded (e : BackupEntry) (he : e ∈ m.tracked) (s : String) (hs : e.original = .text s) :
      d'.node? (d.resolve (b.root ++ Path.ofString s)) =
        d.node? (d.resolve (b.root ++ Path.ofString s)) := by
    rw [← hopens.resolve_eq]
    exact hnode e he _ (.inl ⟨s, hs, hcomplete e he, rfl⟩)
  refine ⟨fun c hc a o ho ↦ ?_, hrecorded, ?_, fun e he s hs ↦ ?_, fun l hl ↦ ?_⟩
  · obtain ⟨e, he, hcovers⟩ := h.covers hopened.anchored c hc a
    have htarget := (Artifact.copyOf_fixedPath? (hwords c hc) ho).original
    cases hcovers with
    | fixed ho' horiginal =>
      obtain rfl := Option.some.inj (ho.symm.trans ho')
      have := hrecorded e he _ horiginal
      rwa [htarget.ofString_toString] at this
    | oldest ha | pattern ha =>
      rw [ha] at ho
      cases ho
  · rw [← h.sharedPath]
    exact hrecorded _ m.sharedEntry_mem_tracked _ rfl
  · obtain ⟨table, rfl⟩ := (hknows e he).exists_table hs
    refine ⟨table, rfl, fun name hend ↦ ?_⟩
    have hnone := (hknows e he).node?_eq_none hs hend
    rw [← hopens.resolve_eq]
    by_contra hsome
    obtain ⟨n, hn⟩ := Option.ne_none_iff_exists'.1 hsome
    have hslash := (hlater'.wellFormed.parent _ _ _ hn).2.noSlash
    rw [hnode e he _ (.inr ⟨table, name, hs, hslash, hend, rfl⟩), hopens.node?_eq_none hnone] at hsome
    exact hsome rfl
  · obtain ⟨reach, hrestores, hreach⟩ := hreverts
    refine hrestores.changes.same l fun hreached ↦ ?_
    obtain ⟨e, he, htouch⟩ := hreach l hreached
    exact hl e he ((touches_congr hopens.cwd).1 htouch)

theorem spelled_root (settings : Settings) : (ofSettings settings).root.Spelled :=
  Path.spelled_ofString _

theorem spelled_folder (settings : Settings) : (ofSettings settings).folder.Spelled :=
  (spelled_root settings).append (Path.spelled_ofString _)

variable {raw : Value} {schema : Schema} {all cs : List Configuration} {memory : Memory}
  {settings : Settings}

/-- Whatever happens after a backup of entities of a schema that copied all there was, a rollback to
it succeeds exactly if the disk answers what it asks. It then recovers what there was, and a second
one changes nothing. -/
theorem ends_create_rollback (haccepted : schema.Accepted raw)
    (hbuilt : (Configuration.buildAll schema).run.run Memory.empty = (.ok all, memory))
    (hcs : cs.Subperm all) (hwf : s.disk.WellFormed) (hanchor : s.disk.Anchored settings.root)
    (moment : Moment) :
    Ends ((ofSettings settings).create cs moment) s
      (fun m u ↦ (∀ e ∈ m.tracked, e.existed = e.backedUp) →
        ∀ s', Since (ofSettings settings) m u.disk s'.disk →
          Ends ((ofSettings settings).rollback m.timestamp) s'
            (fun r t ↦
              (r.isSuccess = true ↔ ∀ e ∈ m.tracked, (ofSettings settings).Answers s'.disk e) ∧
              (r.isSuccess = true → Recovers (ofSettings settings) cs m s.disk s'.disk t.disk ∧
                Ends ((ofSettings settings).rollback m.timestamp) t
                  (fun r' t' ↦ r'.isSuccess = true ∧ ∀ l, t'.disk.file? l = t.disk.file? l)
                  fun _ _ ↦ False))
            fun _ _ ↦ ¬∀ e ∈ m.tracked, (ofSettings settings).Answers s'.disk e)
      fun _ _ ↦ True := by
  have hbuilt := Configuration.built haccepted hbuilt
  have hwords := fun c hc ↦ hbuilt.words c (hcs.subset hc)
  have hroot := spelled_root settings
  refine (ends_create hwf (spelled_folder settings) rfl hwords).mono ?_
    fun _ _ _ ↦ trivial
  rintro m u ⟨-, session, d₀, hopening, hmade⟩ hcomplete s' hsince
  have hopens := hopening.changes
  have hanchor₀ : d₀.Anchored (ofSettings settings).root := hopens.anchored hanchor
  have hopened := hmade.opened hanchor₀ hroot
  have hknows := fun e he ↦ (hmade.entered e he).knows hanchor₀
  have hlater := hmade.later hanchor₀ hsince
  refine (hmade.ends_rollback hanchor₀ hroot hlater).mono ?_ fun _ _ ↦ And.right
  rintro r t ⟨hsuccess, hreverts, hrestored⟩
  refine ⟨hsuccess, fun hok ↦ ⟨hmade.recovers hopens hopened hwords hcomplete hlater hreverts
    (hrestored hok), ?_⟩⟩
  have hlater' := hlater.reverts hopened hknows hreverts (List.Subset.refl _)
  have hanswers : ∀ e ∈ m.tracked, (ofSettings settings).Answers t.disk e := fun e he ↦
    (hlater.answers_iff_of_reverts hopened hknows hreverts (List.Subset.refl _) he).2
      (hsuccess.1 hok e he)
  refine (hmade.ends_rollback hanchor₀ hroot hlater').mono ?_ fun _ _ hbad ↦ hbad.2 hanswers
  rintro r' t' ⟨hsuccess', ⟨reach, hrestores, hreach⟩, -⟩
  refine ⟨hsuccess'.2 hanswers, fun l ↦ ?_⟩
  rcases hrestores.file?_or l with heq | ⟨hreached, heq⟩
  · exact heq
  · obtain ⟨e, he, htouch⟩ := hreach l hreached
    rw [heq, hrestored hok e he l htouch]

end BackupStore

/-! ## An edited file -/

namespace SmallProject

open Disk DiskOp BackupStore

def backups : BackupStore := .ofSettings (settings .skip)

/-- The model after someone edited it. -/
def edited (d : Disk) : Disk := d.put ["app", "Models", "Post.php"] (.file (Text.encode "<?php //"))

/-- The backup is complete, and a disk without migrations answers all about it: its paths are
short. -/
def answersAll (m : BackupManifest) (d : Disk) : Bool :=
  d.cwd == [] && d.node? ["database", "migrations"] == none && m.tracked.all fun e ↦
    e.existed == e.backedUp &&
      match e.original with
      | .text s =>
        pathFault? (backups.root ++ Path.ofString s) == none &&
          (backups.root ++ Path.ofString s).parts.all (!isTooLong ·)
      | _ => true

theorem complete_of_answersAll {m : BackupManifest} {d : Disk} (h : answersAll m d = true) :
    ∀ e ∈ m.tracked, e.existed = e.backedUp := by
  simp only [answersAll, Bool.and_eq_true, beq_iff_eq, List.all_eq_true] at h
  exact fun e he ↦ (h.2 e he).1

theorem answers_of_answersAll {m : BackupManifest} {d : Disk} (h : answersAll m d = true)
    (hwf : d.WellFormed) : ∀ e ∈ m.tracked, backups.Answers d e := by
  intro e he
  simp only [answersAll, Bool.and_eq_true, beq_iff_eq, List.all_eq_true] at h
  obtain ⟨⟨hcwd, hnone⟩, hall⟩ := h
  refine ⟨fun s hs _ ↦ ?_, fun _ _ ↦ not_refuses_of_short (by decide) (by decide),
    fun table name _ _ hsome ↦ ?_⟩
  · have hshort := (hall e he).2
    rw [hs] at hshort
    simp only [Bool.and_eq_true, beq_iff_eq, List.all_eq_true, Bool.not_eq_true'] at hshort
    exact not_refuses_of_short hshort.1 hshort.2
  · have hplace : d.resolve (backups.root ++ Migration.folder) = ["database", "migrations"] :=
      resolve_congr (d := disk) hcwd _
    rw [hplace] at hsome
    rw [hwf.dir_of_below (by simp) hsome] at hnone
    cases hnone

/-- A model that was edited after a backup is as it was before after a rollback. -/
theorem create_rollback : ∃ m u,
    (backups.create configurations moment).run.run scene = (.ok m, u) ∧
      Ends (backups.rollback m.timestamp) { u with disk := edited u.disk }
        (fun r t ↦ r.isSuccess = true ∧
          t.disk.node? ["app", "Models", "Post.php"] = some (.file (Text.encode "<?php")))
        fun _ _ ↦ False := by
  obtain ⟨memory, hbuilt⟩ := exists_memory
  have hschema := Configuration.built accepted hbuilt
  have hanchor : scene.disk.Anchored (settings .skip).root := anchoredFrom_of_plain _ _ (by decide)
  obtain ⟨m, u, hrun, htest⟩ := exists_run_of_passes (backups.create configurations moment) scene
    (fun m u ↦ answersAll m (edited u.disk) &&
      u.disk.node? ["app", "Models", "Post.php"] == some (.file (Text.encode "<?php")))
    (by decide +kernel)
  obtain ⟨htest, hpost⟩ := Bool.and_eq_true_iff.1 htest
  rw [beq_iff_eq] at hpost
  have hshared : backups.shared = RouteFile.relativePath true := rfl
  have hfolder : backups.folder.Spelled := spelled_folder _
  have hends := (ends_create (by decide : disk.WellFormed) hfolder hshared hschema.words).and
    (ends_create_rollback accepted hbuilt (.refl _) (by decide) hanchor moment)
  obtain ⟨⟨-, session, d₀, hopening, hmade⟩, hrollback⟩ := (ends_of_run_ok hrun).1 hends
  have hopens := hopening.changes
  have hnode : u.disk.node? (["app", "Models"] ++ ["Post.php"]) ≠ some .dir := by
    rw [List.cons_append, List.cons_append, List.nil_append, hpost]
    simp
  have hput : Changes nowhere (· = ["app", "Models", "Post.php"]) u.disk (edited u.disk) :=
    Changes.put_file hmade.grows.wellFormed (hmade.grows.keeps _ (hopens.keeps _ rfl))
      ⟨by decide, by decide, by decide⟩ hnode
  have hplaces : d₀.resolve backups.folder = ["storage", "app", "backups"] :=
    resolve_congr (d := disk) hopens.cwd _
  obtain ⟨name, hplace, -⟩ := hmade.new.exists_place
  have hsince : Since backups m u.disk (edited u.disk) := by
    refine hmade.since (hopens.anchored hanchor) hput (fun l hl ↦ ⟨id, ?_⟩) fun _ _ _ _ ↦ id
    rintro rfl
    rw [hplace, hplaces] at hl
    simp at hl
  have hanswers := answers_of_answersAll htest hput.wellFormed
  refine ⟨m, u, hrun, ((hrollback (complete_of_answersAll htest)
    { u with disk := edited u.disk } hsince).mono ?_ fun _ _ hbad ↦ hbad hanswers)⟩
  rintro r t ⟨hsuccess, hrecovers⟩
  obtain ⟨c, hc, hpath⟩ : ∃ c ∈ configurations,
      Artifact.fixedPath? .model c = some ⟨0, ["app", "Models", "Post.php"]⟩ := by decide +kernel
  exact ⟨hsuccess.2 hanswers, (hrecovers (hsuccess.2 hanswers)).1.fixed c hc .model _ hpath⟩

end SmallProject

end Scaffold
