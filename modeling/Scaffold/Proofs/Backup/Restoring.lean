import Scaffold.Proofs.Backup.Session

/-!
# Rolling back

A rollback restores what was copied and deletes what was not there, entry by entry. It changes
nothing but the locations of the entries, which become what they were when the session was opened.
No step fails exactly if the disk answers all that is asked.
-/

namespace Scaffold

open Disk DiskOp

/-- The names on the way to a target that is there can be names of directories and files. -/
theorem Path.IsTarget.nameable {o : Path} {d : Disk} (ho : o.IsTarget) (hwf : d.WellFormed)
    {place : Location} (h : (d.node? (place ++ o.parts)).isSome) : ∀ part ∈ o.parts, part ≠ ".." ∧ Nameable part := by
  intro part hpart
  have hup : part ≠ ".." := (ho.ne_of_mem hpart).2.2
  refine ⟨hup, (hwf.nameable_of_stands (anchoredFrom_of_plain d place ho.plain) ?_ part
    hpart).resolve_left hup⟩
  rwa [follow_of_plain _ ho.plain]

namespace BackupStore

variable {b : BackupStore} {session : Path} {m : BackupManifest} {d₀ d d' d'' : Disk}
  {e : BackupEntry} {es es' : List BackupEntry} {steps steps' : List RollbackStep} {l : Location}
  {o c : Path} {entity artifact : String} {s : Scene}

/-! ## Steps -/

/-- No step failed. -/
def NoneFailed (steps : List RollbackStep) : Prop := ∀ st ∈ steps, st.action ≠ .failed

@[simp] theorem noneFailed_nil : NoneFailed [] := by simp [NoneFailed]

@[simp] theorem noneFailed_append :
    NoneFailed (steps ++ steps') ↔ NoneFailed steps ∧ NoneFailed steps' :=
  List.forall_mem_append

@[simp] theorem noneFailed_singleton {st : RollbackStep} :
    NoneFailed [st] ↔ st.action ≠ .failed := by simp [NoneFailed]

/-- A step on a target says how its operation went. -/
theorem ends_step (ho : o.slashes = 0) {op : DiskOp Unit} {done : RollbackAction}
    (hdone : done ≠ .failed) {success failure : String} {good bad : Disk → Prop}
    (h : Ends op s.disk (fun _ d ↦ good d) fun e d ↦ bad d ∧ e.fault.IsPlain) :
    Ends (b.step (b.root ++ o) entity artifact op done success failure) s
      (fun st t ↦ st.action ≠ .failed ∧ good t.disk ∨ st.action = .failed ∧ bad t.disk)
      fun _ _ ↦ False := by
  rw [step, ends_bind, relative, Path.relativeTo?_append ho, ends_pure, ends_bind,
    Run.ends_attempt, Run.ends_onDisk]
  refine h.mono (fun _ d hd ↦ ?_) fun e d ⟨hd, hplain⟩ ↦ ⟨fun _ ↦ ?_, fun hfatal ↦ ?_⟩
  · simp only [ends_bind, Run.ends_say, ends_pure]
    exact .inl ⟨hdone, hd⟩
  · simp only [ends_bind, Run.ends_say, ends_pure]
    exact .inr ⟨trivial, hd⟩
  · rw [Failure.isDiskFailure_disk.2 hplain] at hfatal
    cases hfatal

/-- A file that was not there at first is deleted. -/
theorem restores_erase (hwf : d.WellFormed) (ho : o.IsTarget) {content : ByteArray}
    (hfault : pathFault? (b.root ++ o) = none)
    (hfile : d.node? (d₀.resolve b.root ++ o.parts) = some (.file content))
    (hnone : d₀.node? (d₀.resolve b.root ++ o.parts) = none) :
    Restores b d₀ (· = d₀.resolve b.root ++ o.parts) d (d.erase (d₀.resolve b.root ++ o.parts)) where
  changes := .erase hwf hfile
  restored l hl := by
    obtain ⟨dirs, file, rfl, -⟩ := id ho
    rw [hl, file?_eq_none_iff.2 (.inl hnone), file?_eq_none_iff, node?_erase _ _ (by simp), if_pos rfl]
    exact .inl rfl
  named o' ho' hsome hgone := by
    by_cases heq : d₀.resolve b.root ++ o'.parts = d₀.resolve b.root ++ o.parts
    · rwa [ho'.eq_of_parts ho (List.append_cancel_left heq)]
    · have hchanges : Changes nowhere _ d _ := .erase hwf hfile
      rw [hchanges.node?_eq_none hgone heq] at hsome
      cases hsome

/-- What came at a target is deleted, unless its path is too long. -/
theorem ends_delete (hwf : s.disk.WellFormed) (hanchor : s.disk.Anchored b.root)
    (ho : o.IsTarget) (hcwd : s.disk.cwd = d₀.cwd)
    (hnone : d₀.node? (d₀.resolve b.root ++ o.parts) = none)
    (hfile : (s.disk.file? (d₀.resolve b.root ++ o.parts)).isSome) :
    Ends (b.delete entity artifact (b.root ++ o)) s
      (fun st t ↦
        st.action ≠ .failed ∧ pathFault? (b.root ++ o) ≠ some .nameTooLong ∧
            Restores b d₀ (· = d₀.resolve b.root ++ o.parts) s.disk t.disk ∨
          st.action = .failed ∧ pathFault? (b.root ++ o) = some .nameTooLong ∧ t.disk = s.disk)
      fun _ _ ↦ False := by
  have hplace : s.disk.resolve (b.root ++ o) = d₀.resolve b.root ++ o.parts := by
    rw [ho.resolve_eq, resolve_congr hcwd]
  obtain ⟨content, hcontent⟩ := Option.isSome_iff_exists.1 hfile
  rw [file?_eq_some_iff] at hcontent
  have hrefuses := hwf.refuses_iff_of_isSome (ho.anchored hanchor) (by rw [hplace, hcontent]; rfl)
  have hremove : Ends (remove (b.root ++ o)) s.disk
      (fun _ d ↦ pathFault? (b.root ++ o) ≠ some .nameTooLong ∧
        Restores b d₀ (· = d₀.resolve b.root ++ o.parts) s.disk d)
      fun e d ↦ (pathFault? (b.root ++ o) = some .nameTooLong ∧ d = s.disk) ∧ e.fault.IsPlain := by
    rw [ends_remove]
    rcases hwf.locate_cases (ho.anchored hanchor) with hlocate | hlocate | ⟨hno, -⟩
    · have hfault := pathFault?_of_locate hlocate
      rw [hlocate, hplace]
      simp only [Except.ok.injEq, forall_eq', hcontent, reduceCtorEq, false_imp_iff, implies_true,
        and_true]
      exact ⟨fun _ _ ↦ ⟨by simp [hfault], restores_erase hwf ho hfault hcontent hnone⟩, trivial,
        fun h ↦ by cases h⟩
    · have hplain : DiskFault.IsPlain .nameTooLong := by simp [DiskFault.IsPlain]
      rw [hlocate]
      simpa using ⟨hrefuses.1 hlocate, hplain⟩
    · rw [hplace, hcontent] at hno
      cases hno
  exact ends_step ho.slashes (by decide) hremove

/-- All that came at some targets is deleted, one after the other. -/
theorem ends_deleteAll {qs : List Path} (hwf : s.disk.WellFormed) (hanchor : s.disk.Anchored b.root)
    (hcwd : s.disk.cwd = d₀.cwd) (hnodup : qs.Nodup)
    (hqs : ∀ q ∈ qs, ∃ o : Path, o.IsTarget ∧ q = b.root ++ o)
    (hnone : ∀ q ∈ qs, d₀.node? (d₀.resolve q) = none)
    (hfile : ∀ q ∈ qs, (s.disk.file? (d₀.resolve q)).isSome) :
    Ends (qs.mapM (b.delete entity artifact)) s
      (fun steps t ↦ ∃ reach, Restores b d₀ reach s.disk t.disk ∧
        (∀ l, reach l → ∃ q ∈ qs, l = d₀.resolve q) ∧
          (NoneFailed steps ↔ ∀ q ∈ qs, pathFault? q ≠ some .nameTooLong) ∧
            (NoneFailed steps → ∀ q ∈ qs, reach (d₀.resolve q)))
      fun _ _ ↦ False := by
  induction qs generalizing s with
  | nil =>
    exact (ends_pure _).2 ⟨nowhere, .refl hwf fun _ ↦ False.elim, fun _ ↦ False.elim, by simp, by simp⟩
  | cons q rest ih =>
    obtain ⟨hq, hnodup'⟩ := List.nodup_cons.1 hnodup
    obtain ⟨⟨o, ho, rfl⟩, hrest⟩ := List.forall_mem_cons.1 hqs
    have hplace := ho.resolve_eq d₀ b.root
    rw [List.mapM_cons, ends_bind]
    refine (ends_delete hwf hanchor ho hcwd (hplace ▸ hnone _ List.mem_cons_self)
      (hplace ▸ hfile _ List.mem_cons_self)).mono ?_ fun _ _ ↦ id
    intro st t hst
    obtain ⟨reach, hrestores, hreach, hiff, hdone⟩ : ∃ reach, Restores b d₀ reach s.disk t.disk ∧
        (∀ l, reach l → l = d₀.resolve (b.root ++ o)) ∧
          (st.action ≠ .failed ↔ pathFault? (b.root ++ o) ≠ some .nameTooLong) ∧
            (st.action ≠ .failed → reach (d₀.resolve (b.root ++ o))) := by
      rcases hst with ⟨hdone, hshort, hrestores⟩ | ⟨hfailed, hlong, hdisk⟩
      · rw [hplace]
        exact ⟨_, hrestores, fun _ ↦ id, by simp [hdone, hshort], fun _ ↦ rfl⟩
      · rw [hdisk]
        exact ⟨nowhere, .refl hwf fun _ ↦ False.elim, fun _ ↦ False.elim, by simp [hfailed, hlong],
          fun h ↦ absurd hfailed h⟩
    have hother (q : Path) (hmem : q ∈ rest) : ¬reach (d₀.resolve q) := fun hl ↦ by
      obtain ⟨o', ho', rfl⟩ := hrest q hmem
      have heq := hreach _ hl
      rw [hplace, ho'.resolve_eq] at heq
      rw [ho'.eq_of_parts ho (List.append_cancel_left heq)] at hmem
      exact hq hmem
    rw [ends_bind]
    refine (ih hrestores.changes.wellFormed (hrestores.changes.anchored hanchor)
      (hrestores.changes.cwd.trans hcwd) hnodup' hrest
      (fun q hmem ↦ hnone q (List.mem_cons_of_mem _ hmem)) fun q hmem ↦ ?_).mono ?_ fun _ _ ↦ id
    · rw [hrestores.changes.same _ (hother q hmem)]
      exact hfile q (List.mem_cons_of_mem _ hmem)
    · rintro steps u ⟨reach', hrestores', hreach', hiff', hall⟩
      refine (ends_pure _).2 ⟨_, hrestores.trans hrestores', fun l hl ↦ ?_, ?_, fun h ↦ ?_⟩
      · rcases hl with hl | hl
        · exact ⟨_, List.mem_cons_self, hreach l hl⟩
        · obtain ⟨q, hmem, heq⟩ := hreach' l hl
          exact ⟨q, List.mem_cons_of_mem _ hmem, heq⟩
      · rw [← List.singleton_append, noneFailed_append, noneFailed_singleton, hiff, hiff',
          List.forall_mem_cons]
      · rw [← List.singleton_append, noneFailed_append, noneFailed_singleton] at h
        exact List.forall_mem_cons.2 ⟨.inl (hdone h.1), fun q hmem ↦ .inr (hall h.2 q hmem)⟩

/-- A file is restored when it gets its first content. -/
theorem restores_of_file {content : ByteArray}
    (h : Changes (fun l ↦ d₀.node? l = some .dir) (· = d₀.resolve b.root ++ o.parts) d d')
    (hfile : d'.file? (d₀.resolve b.root ++ o.parts) = some content)
    (hfile₀ : d₀.file? (d₀.resolve b.root ++ o.parts) = some content) :
    Restores b d₀ (· = d₀.resolve b.root ++ o.parts) d d' where
  changes := h
  restored l hl := by rw [hl, hfile, hfile₀]
  named o' _ hsome hgone := by
    by_cases heq : d₀.resolve b.root ++ o'.parts = d₀.resolve b.root ++ o.parts
    · rw [heq, file?_eq_some_iff.1 hfile] at hgone
      cases hgone
    · rw [h.node?_eq_none hgone heq] at hsome
      cases hsome

/-! ## Reverted disks -/

/-- What is restored stays restored. -/
theorem Restores.file?_eq {reach : Location → Prop} (h : Restores b d₀ reach d d')
    (hl : d.file? l = d₀.file? l) : d'.file? l = d₀.file? l := by
  rcases h.file?_or l with heq | ⟨-, heq⟩
  · rw [heq, hl]
  · exact heq

/-- Only at the locations of the entries the disk has changed, and there it has become what it was
at first. -/
def Reverts (b : BackupStore) (d₀ : Disk) (es : List BackupEntry) (d d' : Disk) : Prop :=
  ∃ reach, Restores b d₀ reach d d' ∧ ∀ l, reach l → ∃ e ∈ es, b.Touches d₀ e l

namespace Reverts

theorem refl (hwf : d.WellFormed) : Reverts b d₀ es d d :=
  ⟨nowhere, .refl hwf fun _ ↦ False.elim, fun _ ↦ False.elim⟩

theorem mono (h : Reverts b d₀ es d d') (hsub : es ⊆ es') : Reverts b d₀ es' d d' := by
  obtain ⟨reach, hrestores, hreach⟩ := h
  refine ⟨reach, hrestores, fun l hl ↦ ?_⟩
  obtain ⟨e, he, htouch⟩ := hreach l hl
  exact ⟨e, hsub he, htouch⟩

theorem trans (h : Reverts b d₀ es d d') (h' : Reverts b d₀ es d' d'') : Reverts b d₀ es d d'' := by
  obtain ⟨reach, hrestores, hreach⟩ := h
  obtain ⟨reach', hrestores', hreach'⟩ := h'
  exact ⟨_, hrestores.trans hrestores', fun l hl ↦ hl.elim (hreach l) (hreach' l)⟩

theorem of_restores {reach : Location → Prop} (h : Restores b d₀ reach d d')
    (hreach : ∀ l, reach l → b.Touches d₀ e l) : Reverts b d₀ [e] d d' :=
  ⟨reach, h, fun l hl ↦ ⟨e, by simp, hreach l hl⟩⟩

theorem file?_eq (h : Reverts b d₀ es d d') (hl : d.file? l = d₀.file? l) :
    d'.file? l = d₀.file? l := by
  obtain ⟨reach, hrestores, -⟩ := h
  exact hrestores.file?_eq hl

end Reverts

/-- What a rollback of entries has done: it reverts the disk, no step failed exactly if the disk
answered all that was asked for the entries, and in that case all their locations are restored. -/
structure Undoes (b : BackupStore) (d₀ : Disk) (es : List BackupEntry) (d : Disk)
    (steps : List RollbackStep) (d' : Disk) : Prop where
  reverts : Reverts b d₀ es d d'
  noneFailed_iff : NoneFailed steps ↔ ∀ e ∈ es, b.Answers d e
  restored : NoneFailed steps → ∀ e ∈ es, ∀ l, b.Touches d₀ e l → d'.file? l = d₀.file? l

theorem Undoes.stay (hwf : d.WellFormed) (hanswers : b.Answers d e)
    (h : ∀ l, b.Touches d₀ e l → d.file? l = d₀.file? l) : Undoes b d₀ [e] d [] d where
  reverts := .refl hwf
  noneFailed_iff := by simpa using hanswers
  restored := by simpa using h

theorem Undoes.of_restores {reach : Location → Prop} (h : Restores b d₀ reach d d')
    (hreach : ∀ l, reach l → b.Touches d₀ e l) (hiff : NoneFailed steps ↔ b.Answers d e)
    (hall : NoneFailed steps → ∀ l, b.Touches d₀ e l → d'.file? l = d₀.file? l) :
    Undoes b d₀ [e] d steps d' where
  reverts := .of_restores h hreach
  noneFailed_iff := by simpa using hiff
  restored := by simpa using hall

/-- Of what existed nothing is asked. -/
theorem answers_of_existed {original copy error : Value} {backedUp : Bool} :
    b.Answers d ⟨original, copy, backedUp, true, error, .null⟩ :=
  ⟨nofun, nofun, nofun⟩

theorem answers_absent_iff (ho : o.IsTarget) :
    b.Answers d ⟨.text o.toString, .null, false, false, .null, .null⟩ ↔ ¬d.Refuses (b.root ++ o) := by
  constructor
  · intro h
    rw [← ho.ofString_toString]
    exact h.original _ rfl rfl
  · intro h
    refine ⟨fun s hs _ ↦ ?_, nofun, nofun⟩
    obtain rfl := Value.text.inj hs
    rwa [ho.ofString_toString]

/-! ## Entries -/

/-- No known entry has an empty path. -/
theorem Knows.original_ne (h : Knows b session d e) : e.original ≠ .text "" := by
  cases h with
  | absent ho => simpa using ho.toString_ne
  | kept hc => simpa using hc.original.toString_ne
  | left ho => simpa using ho.toString_ne
  | fits => nofun

/-- The paths are those of the migrations that fit the pattern of a table now. -/
structure Matches (b : BackupStore) (d₀ : Disk) (table : String) (d : Disk) (qs : List Path) : Prop where
  nodup : qs.Nodup
  fits : ∀ q ∈ qs, ∃ name, q = b.root ++ Migration.folder.child name ∧
    (Migration.folder.child name).IsTarget ∧ Text.endsWith name (Migration.ending table) = true ∧
      d₀.resolve q = d₀.resolve (b.root ++ Migration.folder) ++ [name] ∧
        (d.node? (d₀.resolve q)).isSome
  complete : ∀ name, Text.endsWith name (Migration.ending table) = true →
    (d.node? (d₀.resolve (b.root ++ Migration.folder) ++ [name])).isSome →
      b.root ++ Migration.folder.child name ∈ qs

section Later

variable (hopened : Opened b session d₀) (hlater : Later b session m d₀ s.disk)

include hopened hlater

/-- A copy of a session can be read, and it is no place of a target. -/
theorem Later.readBytes_copy (he : ⟨.text o.toString, .text c.toString, true, true, .null, .null⟩ ∈ m.tracked)
    (hc : c.CopyOf o) {content : ByteArray}
    (hfile : d₀.file? (d₀.resolve b.root ++ o.parts) = some content)
    (hcopy : pathFault? (session ++ c) = none) :
    s.disk.readBytes (session ++ c) = .ok content ∧
      s.disk.resolve (session ++ c) ≠ d₀.resolve b.root ++ o.parts := by
  have hsource : s.disk.resolve (session ++ c) = d₀.resolve session ++ c.parts := by
    rw [hc.copy.resolve_eq, resolve_congr hlater.cwd]
  have hheld : s.disk.file? (s.disk.resolve (session ++ c)) = some content := by
    rw [hsource, hlater.held _ he o c hc rfl rfl, hfile]
  refine ⟨readBytes_eq_ok_iff.2 ⟨?_, hheld⟩, ?_⟩
  · rw [locate_eq_walk hcopy]
    exact hlater.wellFormed.walk_eq_ok (hc.copy.anchored (anchored_of_locate hlater.reached)) (by
      rw [← resolve_eq_follow, file?_eq_some_iff.1 hheld]
      rfl)
  · rw [hsource]
    exact fun heq ↦ hopened.not_prefix_root hc.original (by rw [file?_eq_some_iff.1 hfile]; rfl)
      (hopened.prefix_root hc.original (heq ▸ List.prefix_append _ _))

/-- A copy of a session is put back where its original was. -/
theorem Later.ends_copyFile (he : ⟨.text o.toString, .text c.toString, true, true, .null, .null⟩ ∈ m.tracked)
    (hc : c.CopyOf o) (hfile : (d₀.file? (d₀.resolve b.root ++ o.parts)).isSome)
    (hfault : pathFault? (b.root ++ o) = none) (hcopy : pathFault? (session ++ c) = none) :
    Ends (copyFile (session ++ c) (b.root ++ o)) s.disk
      (fun _ d ↦ Restores b d₀ (· = d₀.resolve b.root ++ o.parts) s.disk d) fun _ _ ↦ False := by
  obtain ⟨content, hcontent⟩ := Option.isSome_iff_exists.1 hfile
  obtain ⟨hread, hne⟩ := hlater.readBytes_copy hopened he hc hcontent hcopy
  have hnode : (d₀.node? (d₀.resolve b.root ++ o.parts)).isSome := by
    rw [file?_eq_some_iff.1 hcontent]
    rfl
  have hnames := hc.original.nameable hopened.wellFormed hnode
  have hspelled := hc.original.spelled_append hopened.spelled
  have hroot : s.disk.resolve b.root = d₀.resolve b.root := resolve_congr hlater.cwd _
  have hplace : s.disk.resolve (b.root ++ o) = d₀.resolve b.root ++ o.parts := by
    rw [hc.original.resolve_eq, hroot]
  have hfree : s.disk.node? (d₀.resolve b.root ++ o.parts) ≠ some .dir :=
    hlater.free _ he _ ((touches_original hc.original).2 ⟨rfl, rfl⟩)
  have hclear := hlater.clear _ he _ rfl rfl
  rw [hc.original.ofString_toString] at hclear
  have hshort := hc.short
  have htarget := hc.original.append_eq b.root
  have hplain := hc.original.plain
  -- The directories on the way were there at first.
  obtain ⟨dirs, file, hparts⟩ : ∃ dirs file, o.parts = dirs ++ [file] := by
    obtain ⟨dirs, file, rfl, -⟩ := hc.original
    exact ⟨dirs, file, rfl⟩
  rw [hparts] at hnode hnames hfree hclear hshort htarget hplain hne hplace ⊢
  rw [List.length_append] at hshort
  have hdir₀ (l : Location) (hl : l <+: d₀.resolve b.root ++ dirs) : d₀.node? l = some .dir := by
    rw [← List.append_assoc] at hnode
    refine hopened.wellFormed.isSome_of_prefix (hl.trans (List.prefix_append _ _)) ?_ hnode
    rintro rfl
    simpa using hl.length_le
  have hisDir : s.disk.isDir b.root = .ok true := by
    rw [htarget] at hfault
    refine hlater.wellFormed.isDir_of_node? hlater.anchored (pathFault?_of_append hfault) ?_
    rw [hroot]
    exact hlater.root (hdir₀ _ (List.prefix_append _ _))
  have hreturns := copyFile_returns hlater.wellFormed htarget hspelled hisDir hfault hnames
    (fun a ha ↦ by
      rw [hroot]
      refine hclear a (ha.trans (List.prefix_append _ _)) ?_
      rintro rfl
      simpa using ha.length_le)
    (by rwa [hroot]) (le_trans (by omega) (show 5 ≤ deepest by decide)) hread (by rwa [hroot])
  have hmake : Ends (makeDirs (b.root ++ o).parent) s.disk
      (fun _ d ↦ Changes (fun l ↦ d₀.node? l = some .dir) nowhere s.disk d)
      fun _ d ↦ Changes (fun l ↦ d₀.node? l = some .dir) nowhere s.disk d := by
    have hparent : (b.root ++ o).parent = ⟨b.root.slashes, b.root.parts ++ dirs⟩ := by
      rw [htarget, Path.parent]
      simp only [← List.append_assoc, List.dropLast_concat]
    have hplain' : ".." ∉ dirs := fun h ↦ hplain (List.mem_append_left _ h)
    rw [hparent]
    refine changes_makeDirs_of_anchored hlater.wellFormed
      (List.forall_mem_append.2 ⟨hopened.spelled, fun part hpart ↦ ?_⟩)
      ((anchoredFrom_append _ _ _ _).2 ⟨hlater.anchored, anchoredFrom_of_plain _ _ hplain'⟩)
      fun l hl ↦ hdir₀ l ?_
    · exact (hnames part (List.mem_append_left _ hpart)).2.noSlash
    · rwa [resolve_append _ _ _ hplain', hroot] at hl
  refine (hreturns.and (changes_copyFile hspelled hmake (by rwa [hplace])
    (by rw [hplace, ← hparts, file?_eq_some_iff.1 hcontent]; simp))).mono ?_ fun _ _ ↦ And.left
  rintro _ d ⟨-, content', hcontent', hchanges, -, hthere⟩
  obtain rfl := Option.some.inj ((readBytes_eq_ok_iff.1 hread).2.symm.trans hcontent')
  rw [hplace, ← hparts] at hchanges hthere
  rw [← hparts]
  exact restores_of_file hchanges hthere hcontent

/-- A copy is restored, whatever the disk answers. -/
theorem Later.ends_restoreCopy
    (he : ⟨.text o.toString, .text c.toString, true, true, .null, .null⟩ ∈ m.tracked)
    (hc : c.CopyOf o) (hfile : (d₀.file? (d₀.resolve b.root ++ o.parts)).isSome)
    (hfault : pathFault? (b.root ++ o) = none) (hcopy : pathFault? (session ++ c) = none) :
    Ends (do return [← b.restore (session ++ c) (b.root ++ o) entity artifact]) s
      (fun steps t ↦ Undoes b d₀
        [⟨.text o.toString, .text c.toString, true, true, .null, .null⟩] s.disk steps t.disk)
      fun _ _ ↦ False := by
  have hcopied : Ends (copyFile (session ++ c) (b.root ++ o)) s.disk
      (fun _ d ↦ Restores b d₀ (· = d₀.resolve b.root ++ o.parts) s.disk d)
      fun e _ ↦ False ∧ e.fault.IsPlain :=
    (hlater.ends_copyFile hopened he hc hfile hfault hcopy).mono (fun _ _ ↦ id) fun _ _ ↦ False.elim
  have htouches (l : Location) : b.Touches d₀
      ⟨.text o.toString, .text c.toString, true, true, .null, .null⟩ l ↔
        l = d₀.resolve b.root ++ o.parts := by
    simp [touches_original hc.original]
  rw [ends_bind]
  refine (ends_step hc.original.slashes (by decide) hcopied).mono ?_ fun _ _ ↦ id
  rintro st t (⟨hdone, hrestores⟩ | ⟨-, ⟨⟩⟩)
  refine (ends_pure _).2 (.of_restores hrestores (fun l ↦ (htouches l).2) ?_ fun _ l hl ↦
    hrestores.restored l ((htouches l).1 hl))
  simpa [hdone] using answers_of_existed

omit hopened in
/-- What came where nothing was is deleted. -/
theorem Later.ends_clear (he : ⟨.text o.toString, .null, false, false, .null, .null⟩ ∈ m.tracked)
    (ho : o.IsTarget) (hnone : d₀.node? (d₀.resolve b.root ++ o.parts) = none) :
    Ends (do
        if ← Run.query (·.isThere (b.root ++ o)) then
          return [← b.delete entity artifact (b.root ++ o)]
        return []) s
      (fun steps t ↦ Undoes b d₀ [⟨.text o.toString, .null, false, false, .null, .null⟩] s.disk
        steps t.disk)
      fun _ t ↦ t = s ∧ ¬b.Answers s.disk ⟨.text o.toString, .null, false, false, .null, .null⟩ := by
  have hanchor := ho.anchored hlater.anchored
  have hplace : s.disk.resolve (b.root ++ o) = d₀.resolve b.root ++ o.parts := by
    rw [ho.resolve_eq, resolve_congr hlater.cwd]
  have htouches (l : Location) :
      b.Touches d₀ ⟨.text o.toString, .null, false, false, .null, .null⟩ l ↔
        l = d₀.resolve b.root ++ o.parts := by
    simp [touches_original ho]
  rw [ends_bind, Run.ends_query]
  refine ⟨fun there hthere ↦ ?_, fun e hrefused ↦ ⟨rfl, ?_⟩⟩
  · have hopen : ¬s.disk.Refuses (b.root ++ o) := fun hrefuses ↦ by
      rw [isThere, holds, nodeAt, hrefuses] at hthere
      cases hthere
    have hsome := hlater.wellFormed.eq_of_isThere hanchor hthere
    rw [hplace] at hsome
    cases there with
    | false =>
      rw [eq_comm, Option.isSome_eq_false_iff, Option.isNone_iff_eq_none] at hsome
      refine (ends_pure _).2 (.stay hlater.wellFormed ((answers_absent_iff ho).2 hopen) fun l hl ↦ ?_)
      rw [(htouches l).1 hl, file?_eq_none_iff.2 (.inl hsome), file?_eq_none_iff.2 (.inl hnone)]
    | true =>
      have hfile : (s.disk.file? (d₀.resolve b.root ++ o.parts)).isSome := by
        rw [node?_eq_of_file? (hlater.free _ he _ ((htouches _).2 rfl))] at hsome
        simpa using hsome.symm
      simp only [if_true, ends_bind, ends_pure]
      refine (ends_delete hlater.wellFormed hlater.anchored ho hlater.cwd hnone hfile).mono ?_
        fun _ _ ↦ False.elim
      rintro st t (⟨hdone, -, hrestores⟩ | ⟨-, hlong, -⟩)
      · refine .of_restores hrestores (fun l ↦ (htouches l).2) ?_ fun _ l hl ↦
          hrestores.restored l ((htouches l).1 hl)
        simpa [answers_absent_iff ho, hdone] using hopen
      · rw [← hplace] at hsome
        exact absurd ((hlater.wellFormed.refuses_iff_of_isSome hanchor hsome.symm).2 hlong) hopen
  · rw [answers_absent_iff ho, not_not]
    exact (refuses_of_holds hrefused).1

omit hopened in
theorem Later.exists_matches (hopen : ¬s.disk.Refuses (b.root ++ Migration.folder)) (table : String) :
    ∃ qs, s.disk.glob b.root ⟨["database", "migrations"].map .literal ++
        [.pattern (.any :: (Migration.ending table).toList.map .char)], false⟩ = .ok qs ∧
      Matches b d₀ table s.disk qs := by
  have hfolder : s.disk.resolve (b.root ++ Migration.folder) =
      d₀.resolve (b.root ++ Migration.folder) := resolve_congr hlater.cwd _
  obtain ⟨qs, hglob, hnodup, hmem⟩ :=
    Migration.exists_glob_eq_ok hlater.wellFormed hlater.anchored hopen table
  refine ⟨qs, hglob, hnodup, fun q hq ↦ ?_, fun name hend hsome ↦
    (hmem _).2 ⟨name, rfl, by rwa [hfolder], hend⟩⟩
  obtain ⟨name, rfl, hsome, hend⟩ := (hmem q).1 hq
  have hphp := Migration.endsWith_php hend
  obtain ⟨ho, -⟩ := hlater.refuses_migration_iff hphp hsome
  refine ⟨name, rfl, ho, hend, Migration.resolve_folder_child hphp _ _, ?_⟩
  rwa [Migration.resolve_folder_child hphp, ← hfolder]

omit hopened in
/-- Migrations that came are deleted, those of them that can be named. -/
theorem Later.ends_deleteMatches {table : String} {qs : List Path} (hqs : Matches b d₀ table s.disk qs)
    (he : ⟨.null, .null, false, false, .null, .text (Migration.pathPattern table)⟩ ∈ m.tracked)
    (hnone : ∀ name, Text.endsWith name (Migration.ending table) = true →
      d₀.node? (d₀.resolve (b.root ++ Migration.folder) ++ [name]) = none)
    (hopen : ¬s.disk.Refuses (b.root ++ Migration.folder)) :
    Ends (qs.mapM (b.delete entity artifact)) s
      (fun steps t ↦ Undoes b d₀
        [⟨.null, .null, false, false, .null, .text (Migration.pathPattern table)⟩] s.disk steps t.disk)
      fun _ _ ↦ False := by
  have hfolder : s.disk.resolve (b.root ++ Migration.folder) =
      d₀.resolve (b.root ++ Migration.folder) := resolve_congr hlater.cwd _
  have htouches (q : Path) (hq : q ∈ qs) : b.Touches d₀
      ⟨.null, .null, false, false, .null, .text (Migration.pathPattern table)⟩ (d₀.resolve q) := by
    obtain ⟨name, -, ho, hend, hplace, -⟩ := hqs.fits q hq
    exact touches_pattern.2 ⟨name, ho.spelled name (by simp [Path.child]), hend, hplace⟩
  refine (ends_deleteAll hlater.wellFormed hlater.anchored hlater.cwd hqs.nodup (fun q hq ↦ ?_)
    (fun q hq ↦ ?_) fun q hq ↦ ?_).mono ?_ fun _ _ ↦ id
  · obtain ⟨name, heq, ho, -⟩ := hqs.fits q hq
    exact ⟨_, ho, heq⟩
  · obtain ⟨name, -, -, hend, hplace, -⟩ := hqs.fits q hq
    rw [hplace, hnone name hend]
  · obtain ⟨-, -, -, -, -, hsome⟩ := hqs.fits q hq
    rw [node?_eq_of_file? (hlater.free _ he _ (htouches q hq))] at hsome
    simpa using hsome
  rintro steps t ⟨reach, hrestores, hreach, hiff, hall⟩
  refine .of_restores hrestores (fun l hl ↦ ?_) (hiff.trans ⟨fun hshort ↦ ?_, fun h q hq ↦ ?_⟩)
    fun hdone l hl ↦ ?_
  · obtain ⟨q, hq, rfl⟩ := hreach l hl
    exact htouches q hq
  · refine ⟨fun _ hs ↦ (by cases hs), fun _ _ ↦ hopen, fun table' name hpattern hend hsome ↦ ?_⟩
    obtain rfl := Migration.pathPattern_injective (Value.text.inj hpattern)
    rw [(hlater.refuses_migration_iff (Migration.endsWith_php hend) hsome).2]
    exact hshort _ (hqs.complete name hend (by rwa [← hfolder]))
  · obtain ⟨name, rfl, -, hend, hplace, hsome⟩ := hqs.fits q hq
    rw [hplace, ← hfolder] at hsome
    rw [ne_eq, ← (hlater.refuses_migration_iff (Migration.endsWith_php hend) hsome).2]
    exact h.migrations table name rfl hend hsome
  · obtain ⟨name, -, hend, rfl⟩ := touches_pattern.1 hl
    rcases hnode : s.disk.node? (d₀.resolve (b.root ++ Migration.folder) ++ [name]) with - | n
    · refine hrestores.file?_eq ?_
      rw [file?_eq_none_iff.2 (.inl hnode), file?_eq_none_iff.2 (.inl (hnone name hend))]
    · have hreached := hall hdone _ (hqs.complete name hend (by rw [hnode]; rfl))
      rw [Migration.resolve_folder_child (Migration.endsWith_php hend)] at hreached
      exact hrestores.restored _ hreached

omit hopened in
/-- Where no migration fitted a pattern, those that fit it now are deleted. -/
theorem Later.ends_rollbackPattern {table : String}
    (he : ⟨.null, .null, false, false, .null, .text (Migration.pathPattern table)⟩ ∈ m.tracked)
    (htable : Migration.IsTable table)
    (hnone : ∀ name, Text.endsWith name (Migration.ending table) = true →
      d₀.node? (d₀.resolve (b.root ++ Migration.folder) ++ [name]) = none)
    (hlong : pathFault? (b.root ++ Migration.folder) ≠ some .nameTooLong) :
    Ends (do (← b.glob (.text (Migration.pathPattern table))).mapM (b.delete entity artifact)) s
      (fun steps t ↦ Undoes b d₀
        [⟨.null, .null, false, false, .null, .text (Migration.pathPattern table)⟩] s.disk steps t.disk)
      fun _ t ↦ t = s ∧ ¬b.Answers s.disk
        ⟨.null, .null, false, false, .null, .text (Migration.pathPattern table)⟩ := by
  rw [ends_bind, glob, ends_bind, Run.ends_lift, htable.read_pathPattern]
  refine ⟨fun pattern hpattern ↦ ?_, nofun⟩
  obtain rfl := Except.ok.inj hpattern
  by_cases hopen : s.disk.Refuses (b.root ++ Migration.folder)
  · have hglob := glob_of_refuses hlater.wellFormed ⟨["database", "migrations"].map .literal ++
      [.pattern (.any :: (Migration.ending table).toList.map .char)], false⟩
      (Migration.anchored_folder hlater.anchored) hopen hlong (by decide)
    rw [Run.ends_query_of_error hglob]
    exact ⟨rfl, fun h ↦ h.folder _ rfl hopen⟩
  · obtain ⟨qs, hglob, hqs⟩ := hlater.exists_matches hopen table
    rw [Run.ends_query_of_ok hglob]
    exact (hlater.ends_deleteMatches hqs he hnone hopen).mono (fun _ _ ↦ id) fun _ _ ↦ False.elim

/-- What a rollback of an entry does. It breaks off if the disk does not answer what it asks first. -/
theorem Later.ends_rollbackEntry (hknows : Knows b session d₀ e) (he : e ∈ m.tracked) :
    Ends (b.rollbackEntry session entity artifact e) s
      (fun steps t ↦ Undoes b d₀ [e] s.disk steps t.disk)
      fun _ t ↦ t = s ∧ ¬b.Answers s.disk e := by
  cases hknows with
  | @absent o ho hnone hopen =>
    have htext : (o.toString == "") = false := by simpa using ho.toString_ne
    simp only [rollbackEntry, Bool.false_and, Bool.false_eq_true, if_false, Value.isFalsy, htext,
      Bool.not_false, if_true, pathOf, pure_bind, ho.ofString_toString]
    exact hlater.ends_clear he ho hnone
  | @kept o c hc hfile hfault hcopy =>
    have htext : (o.toString == "") = false := by simpa using hc.original.toString_ne
    have htext' : (c.toString == "") = false := by simpa using hc.copy.toString_ne
    simp only [rollbackEntry, Value.isFalsy, htext, htext', Bool.not_false, Bool.and_true, if_true,
      pathOf, pure_bind, hc.original.ofString_toString, hc.copy.ofString_toString]
    exact (hlater.ends_restoreCopy hopened he hc hfile hfault hcopy).mono (fun _ _ ↦ id)
      fun _ _ ↦ False.elim
  | @left o ho error herror =>
    simp only [rollbackEntry, Bool.false_and, Bool.false_eq_true, if_false, if_true, ends_pure]
    exact .stay hlater.wellFormed answers_of_existed fun l hl ↦
      absurd ((touches_original ho).1 hl).1 (by decide)
  | @fits table htable hnone hopen =>
    have htext : (Migration.pathPattern table == "") = false := by
      simpa using Migration.pathPattern_ne table
    simp only [rollbackEntry, Bool.false_and, Bool.false_eq_true, if_false, Value.isFalsy, htext,
      Bool.not_true]
    refine hlater.ends_rollbackPattern he htable hnone fun hlong ↦ hopen ?_
    exact (hopened.wellFormed.refuses_iff (Migration.anchored_folder hopened.anchored)).2 (.inl hlong)

end Later

/-! ## Whole rollbacks -/

/-- The entries of a manifest in the order of a rollback, under the names of their entities and
artifacts. That of the route file comes last. -/
def turns (m : BackupManifest) : List (Value × Value × BackupEntry) :=
  m.entries ++ [(.text "", .text "routes", m.sharedEntry)]

theorem map_turns (m : BackupManifest) : (turns m).map (fun x ↦ x.2.2) = m.tracked := by
  simp [turns, BackupManifest.tracked]

/-- The route file is brought back as the path of an entry is. -/
theorem rollbackShared_eq (h : m.sharedPath ≠ "") :
    b.rollbackShared session m = b.rollbackEntry session "" "routes" m.sharedEntry := by
  have hfalsy : (Value.text m.sharedPath).isFalsy = false := by simpa [Value.isFalsy] using h
  cases hcopy : m.sharedCopy.isFalsy <;> cases hexisted : m.sharedExisted <;>
    simp [rollbackShared, rollbackEntry, BackupManifest.sharedEntry, pathOf, hfalsy, hcopy, hexisted]

theorem rollbackAll_eq (h : m.sharedPath ≠ "") :
    b.rollbackAll session m = List.flatten <$> (turns m).mapM fun (entity, artifact, e) ↦
      b.rollbackEntry session entity.plain artifact.plain e := by
  simp [rollbackAll, turns, rollbackShared_eq h, List.mapM_append, Value.plain]

/-- What is done with more entries, if the first ones make no difference to what is answered. -/
theorem Undoes.append (h : Undoes b d₀ es d steps d') (h' : Undoes b d₀ es' d' steps' d'')
    (hanswers : ∀ e ∈ es', b.Answers d' e ↔ b.Answers d e) :
    Undoes b d₀ (es ++ es') d (steps ++ steps') d'' where
  reverts := (h.reverts.mono (List.subset_append_left _ _)).trans
    (h'.reverts.mono (List.subset_append_right _ _))
  noneFailed_iff := by
    rw [noneFailed_append, h.noneFailed_iff, h'.noneFailed_iff, List.forall_mem_append]
    exact and_congr_right fun _ ↦ forall₂_congr hanswers
  restored hdone := by
    rw [noneFailed_append] at hdone
    exact List.forall_mem_append.2 ⟨fun e he l hl ↦ h'.reverts.file?_eq (h.restored hdone.1 e he l hl),
      h'.restored hdone.2⟩

section Whole

variable (hopened : Opened b session d₀) (hknows : ∀ e ∈ m.tracked, Knows b session d₀ e)

include hopened hknows

theorem Later.reverts (hlater : Later b session m d₀ d) (h : Reverts b d₀ es d d')
    (hsub : es ⊆ m.tracked) : Later b session m d₀ d' := by
  obtain ⟨reach, hrestores, hreach⟩ := h.mono hsub
  exact hlater.restores hopened hknows hrestores hreach

theorem Later.answers_iff_of_reverts (hlater : Later b session m d₀ d) (h : Reverts b d₀ es d d')
    (hsub : es ⊆ m.tracked) (he : e ∈ m.tracked) : b.Answers d' e ↔ b.Answers d e := by
  obtain ⟨reach, hrestores, hreach⟩ := h.mono hsub
  exact hlater.answers_iff hopened hknows hrestores hreach he

/-- Entries are rolled back one after the other. -/
theorem Later.ends_rollbackEntries {xs : List (Value × Value × BackupEntry)}
    (hlater : Later b session m d₀ s.disk) (hsub : xs.map (fun x ↦ x.2.2) ⊆ m.tracked) :
    Ends (xs.mapM fun (entity, artifact, e) ↦
        b.rollbackEntry session entity.plain artifact.plain e) s
      (fun steps t ↦ Undoes b d₀ (xs.map fun x ↦ x.2.2) s.disk steps.flatten t.disk)
      fun _ t ↦ Reverts b d₀ (xs.map fun x ↦ x.2.2) s.disk t.disk ∧
        ¬∀ e ∈ xs.map fun x ↦ x.2.2, b.Answers s.disk e := by
  induction xs generalizing s with
  | nil =>
    exact (ends_pure _).2 ⟨.refl hlater.wellFormed, by simp, fun _ e he ↦ by simp at he⟩
  | cons x rest ih =>
    obtain ⟨entity, artifact, e⟩ := x
    rw [List.map_cons, List.cons_subset] at hsub
    rw [List.mapM_cons, ends_bind]
    refine (hlater.ends_rollbackEntry hopened (hknows e hsub.1) hsub.1).mono ?_ ?_
    · intro steps t hundoes
      have hsingle : [e] ⊆ m.tracked := by simpa using hsub.1
      have hanswers (e' : BackupEntry) (he' : e' ∈ rest.map fun x ↦ x.2.2) :
          b.Answers t.disk e' ↔ b.Answers s.disk e' :=
        hlater.answers_iff_of_reverts hopened hknows hundoes.reverts hsingle (hsub.2 he')
      rw [ends_bind]
      refine (ih (hlater.reverts hopened hknows hundoes.reverts hsingle) hsub.2).mono ?_ ?_
      · intro steps' u hundoes'
        exact (ends_pure _).2 (hundoes.append hundoes' hanswers)
      · rintro f u ⟨hreverts, hnot⟩
        refine ⟨(hundoes.reverts.mono (by simp)).trans (hreverts.mono (List.subset_cons_self _ _)),
          fun h ↦ hnot fun e' he' ↦ (hanswers e' he').2 (h e' (List.mem_cons_of_mem _ he'))⟩
    · rintro f t ⟨rfl, hnot⟩
      exact ⟨.refl hlater.wellFormed, fun h ↦ hnot (h e List.mem_cons_self)⟩

theorem Later.ends_rollbackAll (hlater : Later b session m d₀ s.disk) :
    Ends (b.rollbackAll session m) s
      (fun steps t ↦ Undoes b d₀ m.tracked s.disk steps t.disk)
      fun _ t ↦ Reverts b d₀ m.tracked s.disk t.disk ∧ ¬∀ e ∈ m.tracked, b.Answers s.disk e := by
  have hshared : m.sharedPath ≠ "" := fun hempty ↦
    (hknows _ m.sharedEntry_mem_tracked).original_ne (congrArg Value.text hempty)
  rw [rollbackAll_eq hshared, ends_map, ← map_turns]
  apply hlater.ends_rollbackEntries hopened hknows
  rw [map_turns]
  exact List.Subset.refl _

omit hopened hknows in
theorem isSuccess_iff {backup : String} :
    RollbackResult.isSuccess ⟨backup, steps, []⟩ = true ↔ NoneFailed steps := by
  simp [RollbackResult.isSuccess, RollbackResult.count, NoneFailed, List.countP_eq_zero]

/-- A rollback to a session goes through its manifest. -/
theorem Later.ends_rollback (hlater : Later b session m d₀ s.disk) (hlegible : m.Legible)
    (hsession : session = b.folder.child m.timestamp) (hname : IsSessionName m.timestamp)
    (hdirectory : m.directory = session.toString) :
    Ends (b.rollback m.timestamp) s
      (fun r t ↦ ∃ steps, r = ⟨m.timestamp, steps, []⟩ ∧
        Undoes b d₀ m.tracked s.disk steps t.disk)
      fun _ t ↦ Reverts b d₀ m.tracked s.disk t.disk ∧ ¬∀ e ∈ m.tracked, b.Answers s.disk e := by
  have hpath : b.folder ++ Path.ofString m.timestamp = session := by
    rw [hname.ofString, hsession]
    exact Path.append_eq _ rfl
  have htimestamp : session.name = m.timestamp := by
    rw [hsession, Path.name, Path.child, List.getLast?_concat]
    rfl
  have hne : (m.timestamp == "") = false := by
    rw [beq_eq_false_iff_ne]
    intro hempty
    have := hname.hyphen
    rw [hempty] at this
    exact absurd this (by decide)
  rw [rollback, ends_bind, rollbackTo, hne]
  simp only [Bool.false_eq_true, if_false, pure_bind, hpath]
  rw [ends_bind, BackupManifest.ends_manifestIn hlegible hdirectory hlater.manifest, ends_bind]
  refine (hlater.ends_rollbackAll hopened hknows).mono ?_ fun _ _ ↦ id
  intro steps t hundoes
  simp only [ends_pure, ends_bind, Run.ends_sayAll, Run.ends_say]
  exact ⟨steps, by rw [htimestamp], hundoes⟩

end Whole

end BackupStore

end Scaffold
