import Scaffold.Backup.Rollback
import Scaffold.Proofs.Backup.Manifest
import Scaffold.Proofs.Backup.Migrations

/-!
# What a backup knows

Every entry of a manifest knows one of four things about the disk on which its session was opened:
nothing stood at a path, a copy lies in the session, something could not be copied, or no migration
fitted a pattern. Later disks on which the session is untouched and no directory or file is in the
way can be rolled back, provided that they answer what a rollback asks.
-/

namespace Scaffold

/-- The route file as an entry. -/
def BackupManifest.sharedEntry (m : BackupManifest) : BackupEntry :=
  ⟨.text m.sharedPath, m.sharedCopy, !m.sharedCopy.isFalsy, m.sharedExisted, .null, .null⟩

/-- All entries, that of the route file last. -/
def BackupManifest.tracked (m : BackupManifest) : List BackupEntry :=
  m.entries.map (fun x ↦ x.2.2) ++ [m.sharedEntry]

theorem BackupManifest.sharedEntry_mem_tracked (m : BackupManifest) : m.sharedEntry ∈ m.tracked := by
  simp [tracked]

namespace BackupStore

open Disk

/-- A new session on a disk: nothing stands in it. -/
structure New (b : BackupStore) (session : Path) (d : Disk) : Prop where
  wellFormed : d.WellFormed
  name : ∃ name, session = b.folder.child name ∧ IsSessionName name
  sessionSpelled : session.Spelled
  isDir : d.isDir session = .ok true
  isEmpty : ∀ l, d.resolve session <+: l → l ≠ d.resolve session → d.node? l = none

/-- A new session of a project whose root is anchored. -/
structure Opened (b : BackupStore) (session : Path) (d : Disk) : Prop extends New b session d where
  anchored : d.Anchored b.root
  spelled : b.root.Spelled

/-- What an entry knows about the disk on which its session was opened. -/
inductive Knows (b : BackupStore) (session : Path) (d : Disk) : BackupEntry → Prop
  | absent {o : Path} (ho : o.IsTarget) (hnone : d.node? (d.resolve b.root ++ o.parts) = none)
      (hopen : ¬d.Refuses (b.root ++ o)) :
      Knows b session d ⟨.text o.toString, .null, false, false, .null, .null⟩
  | kept {o c : Path} (hc : c.CopyOf o) (hfile : (d.file? (d.resolve b.root ++ o.parts)).isSome)
      (hfault : pathFault? (b.root ++ o) = none) (hcopy : pathFault? (session ++ c) = none) :
      Knows b session d ⟨.text o.toString, .text c.toString, true, true, .null, .null⟩
  | left {o : Path} (ho : o.IsTarget) {error : Value} (herror : Json.Written 0 error) :
      Knows b session d ⟨.text o.toString, .null, false, true, error, .null⟩
  | fits {table : String} (htable : Migration.IsTable table)
      (hnone : ∀ name, Text.endsWith name (Migration.ending table) = true →
        d.node? (d.resolve (b.root ++ Migration.folder) ++ [name]) = none)
      (hopen : ¬d.Refuses (b.root ++ Migration.folder)) :
      Knows b session d ⟨.null, .null, false, false, .null, .text (Migration.pathPattern table)⟩

/-- The locations that a rollback of an entry may change. -/
def Touches (b : BackupStore) (d : Disk) (e : BackupEntry) (l : Location) : Prop :=
  (∃ s, e.original = .text s ∧ e.existed = e.backedUp ∧ l = d.resolve (b.root ++ Path.ofString s)) ∨
    ∃ table name, e.pattern = .text (Migration.pathPattern table) ∧ '/' ∉ name.toList ∧
      Text.endsWith name (Migration.ending table) = true ∧
        l = d.resolve (b.root ++ Migration.folder) ++ [name]

/-- The disk answers what a rollback of an entry asks: whether something stands at a path where
nothing stood, and which migrations fit a pattern; and those that fit can be named. -/
structure Answers (b : BackupStore) (d : Disk) (e : BackupEntry) : Prop where
  original : ∀ s, e.original = .text s → e.existed = false → ¬d.Refuses (b.root ++ Path.ofString s)
  folder : ∀ table, e.pattern = .text (Migration.pathPattern table) →
    ¬d.Refuses (b.root ++ Migration.folder)
  migrations : ∀ table name, e.pattern = .text (Migration.pathPattern table) →
    Text.endsWith name (Migration.ending table) = true →
      (d.node? (d.resolve (b.root ++ Migration.folder) ++ [name])).isSome →
        ¬d.Refuses (b.root ++ Migration.folder.child name)

/-- After the disk `d₀` on which the session was opened the disk has become `d`: the session is
untouched, and no directory or file is in the way of a rollback. -/
structure Later (b : BackupStore) (session : Path) (m : BackupManifest) (d₀ d : Disk) : Prop where
  wellFormed : d.WellFormed
  cwd : d.cwd = d₀.cwd
  anchored : d.Anchored b.root
  root : d₀.node? (d₀.resolve b.root) = some .dir → d.node? (d₀.resolve b.root) = some .dir
  reached : d.locate session = .ok (d₀.resolve session)
  manifest : d.readBytes (session.child manifestName) = .ok (Text.encode m.json)
  held : ∀ e ∈ m.tracked, ∀ o c : Path, c.CopyOf o → e.original = .text o.toString →
    e.copy = .text c.toString →
      d.file? (d₀.resolve session ++ c.parts) = d₀.file? (d₀.resolve b.root ++ o.parts)
  free : ∀ e ∈ m.tracked, ∀ l, b.Touches d₀ e l → d.node? l ≠ some .dir
  clear : ∀ e ∈ m.tracked, ∀ s, e.original = .text s → e.backedUp = true →
    ∀ q, q <+: (Path.ofString s).parts → q ≠ (Path.ofString s).parts →
      d.file? (d₀.resolve b.root ++ q) = none

variable {b : BackupStore} {session : Path} {m : BackupManifest} {d₀ d d' : Disk}
  {e : BackupEntry} {l : Location} {o c : Path}

/-! ## Where a rollback may change something -/

theorem touches_original (ho : o.IsTarget) {copy error : Value} {backedUp existed : Bool} :
    b.Touches d ⟨.text o.toString, copy, backedUp, existed, error, .null⟩ l ↔
      existed = backedUp ∧ l = d.resolve b.root ++ o.parts := by
  constructor
  · rintro (⟨s, hs, heq, rfl⟩ | ⟨table, name, hpattern, -⟩)
    · obtain rfl := Value.text.inj hs
      rw [ho.ofString_toString, ho.resolve_eq]
      exact ⟨heq, rfl⟩
    · cases hpattern
  · rintro ⟨heq, rfl⟩
    exact .inl ⟨_, rfl, heq, by rw [ho.ofString_toString, ho.resolve_eq]⟩

theorem touches_pattern {table : String} {copy error : Value} {backedUp existed : Bool} :
    b.Touches d ⟨.null, copy, backedUp, existed, error, .text (Migration.pathPattern table)⟩ l ↔
      ∃ name, '/' ∉ name.toList ∧ Text.endsWith name (Migration.ending table) = true ∧
        l = d.resolve (b.root ++ Migration.folder) ++ [name] := by
  constructor
  · rintro (⟨s, hs, -⟩ | ⟨table', name, hpattern, hslash, hend, rfl⟩)
    · cases hs
    · obtain rfl := Migration.pathPattern_injective (Value.text.inj hpattern)
      exact ⟨name, hslash, hend, rfl⟩
  · rintro ⟨name, hslash, hend, rfl⟩
    exact .inr ⟨table, name, rfl, hslash, hend, rfl⟩

namespace Knows

variable (h : Knows b session d e)

include h

/-- A rollback changes targets only. -/
theorem exists_target (hl : b.Touches d e l) : ∃ o : Path, o.IsTarget ∧ l = d.resolve b.root ++ o.parts := by
  cases h with
  | absent ho hnone hopen => exact ⟨_, ho, ((touches_original ho).1 hl).2⟩
  | kept hc hfile hfault hcopy => exact ⟨_, hc.original, ((touches_original hc.original).1 hl).2⟩
  | left ho herror => exact ⟨_, ho, ((touches_original ho).1 hl).2⟩
  | fits htable hnone hopen =>
    obtain ⟨name, hslash, hend, rfl⟩ := touches_pattern.1 hl
    exact ⟨_, Migration.isTarget_child (Migration.endsWith_php hend) hslash,
      Migration.resolve_child d b.root name⟩

/-- Where a rollback changes something no directory stood. -/
theorem node?_ne_dir (hl : b.Touches d e l) : d.node? l ≠ some .dir := by
  cases h with
  | absent ho hnone hopen =>
    rw [((touches_original ho).1 hl).2, hnone]
    simp
  | kept hc hfile hfault hcopy =>
    rw [((touches_original hc.original).1 hl).2]
    intro hdir
    rw [file?_eq_none_iff.2 (.inr hdir)] at hfile
    cases hfile
  | left ho herror => exact absurd ((touches_original ho).1 hl).1 (by decide)
  | fits htable hnone hopen =>
    obtain ⟨name, hslash, hend, rfl⟩ := touches_pattern.1 hl
    rw [hnone name hend]
    simp

/-- An entry with an original that was copied knows the file. -/
theorem exists_kept {s : String} (horiginal : e.original = .text s) (hbacked : e.backedUp = true) :
    ∃ o c : Path, c.CopyOf o ∧ s = o.toString ∧ (d.file? (d.resolve b.root ++ o.parts)).isSome := by
  cases h with
  | absent ho hnone hopen => cases hbacked
  | kept hc hfile hfault hcopy => exact ⟨_, _, hc, (Value.text.inj horiginal).symm, hfile⟩
  | left ho herror => cases hbacked
  | fits htable hnone hopen => cases hbacked

theorem backedUp_of_copy {s : String} (hcopy : e.copy = .text s) : e.backedUp = true := by
  cases h with
  | absent ho hnone hopen => cases hcopy
  | kept hc hfile hfault hcopy => rfl
  | left ho herror => cases hcopy
  | fits htable hnone hopen => cases hcopy

/-- Where nothing stood the disk answered. -/
theorem opens_original {s : String} (horiginal : e.original = .text s) (hexisted : e.existed = false) :
    (Path.ofString s).IsTarget ∧ ¬d.Refuses (b.root ++ Path.ofString s) := by
  cases h with
  | absent ho hnone hopen =>
    obtain rfl := Value.text.inj horiginal
    rw [ho.ofString_toString]
    exact ⟨ho, hopen⟩
  | kept hc hfile hfault hcopy => cases hexisted
  | left ho herror => cases hexisted
  | fits htable hnone hopen => cases horiginal

theorem opens_folder {s : String} (hpattern : e.pattern = .text s) :
    ¬d.Refuses (b.root ++ Migration.folder) := by
  cases h with
  | absent ho hnone hopen => cases hpattern
  | kept hc hfile hfault hcopy => cases hpattern
  | left ho herror => cases hpattern
  | fits htable hnone hopen => exact hopen

theorem node?_eq_none {table name : String}
    (hpattern : e.pattern = .text (Migration.pathPattern table))
    (hend : Text.endsWith name (Migration.ending table) = true) :
    d.node? (d.resolve (b.root ++ Migration.folder) ++ [name]) = none := by
  cases h with
  | absent ho hnone hopen => cases hpattern
  | kept hc hfile hfault hcopy => cases hpattern
  | left ho herror => cases hpattern
  | fits htable hnone hopen =>
    obtain rfl := Migration.pathPattern_injective (Value.text.inj hpattern)
    exact hnone name hend

end Knows

/-! ## Where a session lies -/

theorem New.exists_place (h : New b session d) :
    ∃ name, d.resolve session = d.resolve b.folder ++ [name] ∧ IsSessionName name := by
  obtain ⟨name, rfl, hname⟩ := h.name
  refine ⟨name, resolve_append _ _ _ ?_, hname⟩
  rw [List.mem_singleton]
  rintro rfl
  exact absurd hname.hyphen (by decide)

/-- No target leads through a session, so it lies in one only if the whole project does. -/
theorem New.prefix_root (h : New b session d) (ho : o.IsTarget)
    (hpre : d.resolve session <+: d.resolve b.root ++ o.parts) :
    d.resolve session <+: d.resolve b.root := by
  obtain ⟨name, hplace, hname⟩ := h.exists_place
  rw [hplace] at hpre ⊢
  by_contra hnot
  obtain ⟨rest, hrest⟩ := (List.prefix_or_prefix_of_prefix (List.prefix_append _ _) hpre).resolve_right
    hnot
  rw [← hrest, List.prefix_append_right_inj] at hpre
  rcases List.eq_nil_or_concat rest with rfl | ⟨before, x, rfl⟩
  · rw [List.append_nil] at hrest
    exact hnot (by rw [hrest])
  · rw [List.concat_eq_append, ← List.append_assoc] at hrest
    obtain rfl := List.singleton_inj.1 (List.append_inj' hrest rfl).2
    exact hname.not_mem ho (hpre.subset (by simp))

/-- A project in which a target stands does not lie in a new session. -/
theorem New.not_prefix_root (h : New b session d) (ho : o.IsTarget)
    (hnode : (d.node? (d.resolve b.root ++ o.parts)).isSome) :
    ¬d.resolve session <+: d.resolve b.root := by
  intro hpre
  obtain ⟨dirs, file, rfl, -⟩ := ho
  rw [h.isEmpty _ (hpre.trans (List.prefix_append _ _))] at hnode
  · cases hnode
  · intro heq
    have := hpre.length_le
    have := congrArg List.length heq
    simp only [List.length_append, List.length_singleton] at this
    omega

/-! ## Restoring -/

/-- The disk has changed at the given locations only, where it has become what it was at first. -/
structure Restores (b : BackupStore) (d₀ : Disk) (reach : Location → Prop) (d d' : Disk) : Prop where
  changes : Changes (fun l ↦ d₀.node? l = some .dir) reach d d'
  restored : ∀ l, reach l → d'.file? l = d₀.file? l
  /-- What has gone was not too long to be named. -/
  named : ∀ o : Path, o.IsTarget → (d.node? (d₀.resolve b.root ++ o.parts)).isSome →
    d'.node? (d₀.resolve b.root ++ o.parts) = none → pathFault? (b.root ++ o) = none

variable {reach reach' : Location → Prop} {d'' : Disk}

theorem Restores.refl (hwf : d.WellFormed) (h : ∀ l, reach l → d.file? l = d₀.file? l) :
    Restores b d₀ reach d d where
  changes := .refl hwf
  restored := h
  named o _ hsome hnone := by
    rw [hnone] at hsome
    cases hsome

theorem Restores.trans (h : Restores b d₀ reach d d') (h' : Restores b d₀ reach' d' d'') :
    Restores b d₀ (fun l ↦ reach l ∨ reach' l) d d'' where
  changes := (h.changes.mono (fun _ ↦ id) fun _ ↦ .inl).trans
    (h'.changes.mono (fun _ ↦ id) fun _ ↦ .inr)
  restored l hl := by
    by_cases hl' : reach' l
    · exact h'.restored l hl'
    · rw [h'.changes.same l hl']
      exact h.restored l (hl.resolve_right hl')
  named o ho hsome hnone := by
    rcases hn : d'.node? (d₀.resolve b.root ++ o.parts) with - | n
    · exact h.named o ho hsome hn
    · exact h'.named o ho (by rw [hn]; rfl) hnone

theorem Restores.congr (h : Restores b d₀ reach d d') (hreach : ∀ l, reach' l ↔ reach l) :
    Restores b d₀ reach' d d' := by
  rwa [funext fun l ↦ propext (hreach l)]

/-- What a disk has after a restoration it had before or at first. -/
theorem Restores.file?_or (h : Restores b d₀ reach d d') (l : Location) :
    d'.file? l = d.file? l ∨ reach l ∧ d'.file? l = d₀.file? l := by
  by_cases hl : reach l
  · exact .inr ⟨hl, h.restored l hl⟩
  · exact .inl (h.changes.same l hl)

/-! ## Later disks -/

section Later

variable (hopened : Opened b session d₀) (hknows : ∀ e ∈ m.tracked, Knows b session d₀ e)
  (hlater : Later b session m d₀ d)

include hlater

theorem Later.refuses_migration_iff {name : String} (hphp : Text.endsWith name ".php" = true)
    (hsome : (d.node? (d.resolve (b.root ++ Migration.folder) ++ [name])).isSome) :
    (Migration.folder.child name).IsTarget ∧
      (d.Refuses (b.root ++ Migration.folder.child name) ↔
        pathFault? (b.root ++ Migration.folder.child name) = some .nameTooLong) := by
  obtain ⟨n, hn⟩ := Option.isSome_iff_exists.1 hsome
  have ho := Migration.isTarget_child hphp (hlater.wellFormed.parent _ _ _ hn).2.noSlash
  refine ⟨ho, hlater.wellFormed.refuses_iff_of_isSome (ho.anchored hlater.anchored) ?_⟩
  rwa [ho.resolve_eq, ← Migration.resolve_child]

include hopened

/-- Restoring makes no difference to a path that the first disk did not refuse. -/
theorem Later.refuses_iff (h : Restores b d₀ reach d d') {p : Path} (hanchor : d.Anchored p)
    (hanchor₀ : d₀.Anchored p) (hopen : ¬d₀.Refuses p) : d'.Refuses p ↔ d.Refuses p := by
  refine ⟨fun hrefuses ↦ ?_, h.changes.refuses hlater.wellFormed hanchor⟩
  refine (hrefuses.or h.changes.wellFormed (h.changes.anchored hanchor) hlater.wellFormed hanchor
    h.changes.cwd.symm hopened.wellFormed hanchor₀ ?_ h.changes.comes).resolve_right hopen
  rw [h.changes.cwd, hlater.cwd]

include hknows

/-- A disk can still be rolled back after changes of targets, if no directory comes where a rollback
may change something. -/
theorem Later.of_changes {dirs files : Location → Prop} (h : Changes dirs files d d')
    (hdirs : ∀ e ∈ m.tracked, ∀ l, b.Touches d₀ e l → ¬dirs l)
    (hfiles : ∀ l, files l → ∃ o : Path, o.IsTarget ∧ l = d₀.resolve b.root ++ o.parts) :
    Later b session m d₀ d' where
  wellFormed := h.wellFormed
  cwd := h.cwd.trans hlater.cwd
  anchored := h.anchored hlater.anchored
  root hroot := h.keeps _ (hlater.root hroot)
  reached := h.locate_eq_ok hlater.reached
  manifest := by
    refine h.readBytes (fun hl ↦ ?_) hlater.manifest
    obtain ⟨o, ho, heq⟩ := hfiles _ hl
    obtain ⟨dirs, file, rfl, -, -, hphp, -⟩ := ho
    have hplace : d.resolve (session.child manifestName) = d.resolve session ++ [manifestName] :=
      resolve_append _ _ _ (by decide)
    rw [hplace, ← List.append_assoc] at heq
    obtain rfl := List.singleton_inj.1 (List.append_inj' heq rfl).2
    revert hphp
    decide
  held e he o c hc horiginal hcopy := by
    rw [← hlater.held e he o c hc horiginal hcopy, h.same]
    intro hl
    obtain ⟨o', ho', heq⟩ := hfiles _ hl
    obtain ⟨o₁, c₁, hc₁, hs, hfile⟩ := (hknows e he).exists_kept horiginal
      ((hknows e he).backedUp_of_copy hcopy)
    have hnode : (d₀.node? (d₀.resolve b.root ++ o₁.parts)).isSome := by
      obtain ⟨content, hcontent⟩ := Option.isSome_iff_exists.1 hfile
      rw [file?_eq_some_iff.1 hcontent]
      rfl
    exact hopened.not_prefix_root hc₁.original hnode
      (hopened.prefix_root ho' (heq ▸ List.prefix_append _ _))
  free e he l hl hdir := (h.comes l hdir).elim (hlater.free e he l hl) (hdirs e he l hl)
  clear e he s horiginal hbacked q hq hne := by
    rw [h.same, hlater.clear e he s horiginal hbacked q hq hne]
    intro hl
    obtain ⟨o', ho', heq⟩ := hfiles _ hl
    obtain ⟨o, c, hc, rfl, -⟩ := (hknows e he).exists_kept horiginal hbacked
    rw [hc.original.ofString_toString] at hq hne
    exact hc.original.ne_of_prefix ho' hq hne (List.append_cancel_left heq)

/-- A disk that is restored in part can still be rolled back. -/
theorem Later.restores (h : Restores b d₀ reach d d')
    (hreach : ∀ l, reach l → ∃ e ∈ m.tracked, b.Touches d₀ e l) : Later b session m d₀ d' :=
  hlater.of_changes hopened hknows h.changes (fun e he _ hl ↦ (hknows e he).node?_ne_dir hl)
    fun l hl ↦ by
      obtain ⟨e, he, htouch⟩ := hreach l hl
      exact (hknows e he).exists_target htouch

/-- Restoring makes no difference to what is answered. -/
theorem Later.answers_iff (h : Restores b d₀ reach d d')
    (hreach : ∀ l, reach l → ∃ e ∈ m.tracked, b.Touches d₀ e l) (he : e ∈ m.tracked) :
    b.Answers d' e ↔ b.Answers d e := by
  have hlater' := hlater.restores hopened hknows h hreach
  have horiginal (s : String) (hs : e.original = .text s) (hexisted : e.existed = false) :
      d'.Refuses (b.root ++ Path.ofString s) ↔ d.Refuses (b.root ++ Path.ofString s) := by
    obtain ⟨ho, hopen⟩ := (hknows e he).opens_original hs hexisted
    exact hlater.refuses_iff hopened h (ho.anchored hlater.anchored)
      (ho.anchored hopened.anchored) hopen
  have hfolder {table : String} (hpattern : e.pattern = .text (Migration.pathPattern table)) :
      d'.Refuses (b.root ++ Migration.folder) ↔ d.Refuses (b.root ++ Migration.folder) :=
    hlater.refuses_iff hopened h (Migration.anchored_folder hlater.anchored)
      (Migration.anchored_folder hopened.anchored) ((hknows e he).opens_folder hpattern)
  have hplace (name : String) := Migration.resolve_child d₀ b.root name
  constructor
  · intro hanswers
    refine ⟨fun s hs hexisted ↦ (horiginal s hs hexisted).not.1 (hanswers.original s hs hexisted),
      fun table hpattern ↦ (hfolder hpattern).not.1 (hanswers.folder table hpattern),
      fun table name hpattern hend hsome ↦ ?_⟩
    obtain ⟨ho, hiff⟩ := hlater.refuses_migration_iff (Migration.endsWith_php hend) hsome
    rw [hiff]
    rw [resolve_congr hlater.cwd] at hsome
    rcases hn : d'.node? (d₀.resolve (b.root ++ Migration.folder) ++ [name]) with - | n
    · rw [h.named _ ho (by rwa [← hplace]) (by rwa [← hplace])]
      simp
    · rw [← resolve_congr hlater'.cwd] at hn
      obtain ⟨-, hiff'⟩ := hlater'.refuses_migration_iff (Migration.endsWith_php hend)
        (by rw [hn]; rfl)
      rw [← hiff']
      exact hanswers.migrations table name hpattern hend (by rw [hn]; rfl)
  · intro hanswers
    refine ⟨fun s hs hexisted ↦ (horiginal s hs hexisted).not.2 (hanswers.original s hs hexisted),
      fun table hpattern ↦ (hfolder hpattern).not.2 (hanswers.folder table hpattern),
      fun table name hpattern hend hsome ↦ ?_⟩
    obtain ⟨ho, hiff'⟩ := hlater'.refuses_migration_iff (Migration.endsWith_php hend) hsome
    rw [resolve_congr hlater'.cwd] at hsome
    -- What fits the pattern now fitted it before, because nothing fitted it at first.
    have hnode : (d.node? (d₀.resolve (b.root ++ Migration.folder) ++ [name])).isSome := by
      have htouch : b.Touches d₀ e (d₀.resolve (b.root ++ Migration.folder) ++ [name]) :=
        .inr ⟨table, name, hpattern, (List.forall_mem_append.1 ho.spelled).2 _ (by simp), hend, rfl⟩
      by_contra hnone
      rw [Option.not_isSome_iff_eq_none] at hnone
      have hfile : d'.file? (d₀.resolve (b.root ++ Migration.folder) ++ [name]) = none := by
        rcases h.file?_or (d₀.resolve (b.root ++ Migration.folder) ++ [name]) with heq | ⟨-, heq⟩
        · rw [heq, file?_eq_none_iff.2 (.inl hnone)]
        · rw [heq, file?_eq_none_iff.2 (.inl ((hknows e he).node?_eq_none hpattern hend))]
      rcases file?_eq_none_iff.1 hfile with hnode | hdir
      · rw [hnode] at hsome
        cases hsome
      · exact hlater'.free e he _ htouch hdir
    rw [← resolve_congr hlater.cwd] at hnode
    obtain ⟨-, hiff⟩ := hlater.refuses_migration_iff (Migration.endsWith_php hend) hnode
    rw [hiff', ← hiff]
    exact hanswers.migrations table name hpattern hend hnode

end Later

end BackupStore

end Scaffold
