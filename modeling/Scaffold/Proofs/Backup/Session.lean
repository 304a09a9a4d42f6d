import Scaffold.Proofs.Backup.Snapshot
import Scaffold.Proofs.Disk.Faults
import Scaffold.Proofs.Disk.Growth

/-!
# Filling a session

A new session is an empty directory. Copies go into directories in it, so nothing outside of it
changes, and what is copied is what stood at the original when the session was opened.
-/

namespace Scaffold

theorem Artifact.length_copyDirs_le (a : Artifact) (studly : String) :
    (a.copyDirs studly).length ≤ 2 := by
  by_cases h : studly = "" <;> cases a <;> simp [copyDirs, h]

theorem IsWord.ne_dots {name : String} (h : IsWord name) : name ≠ ".." := by
  rintro rfl
  exact h.not_mem (c := '.') (by decide) (by decide)

/-- A copy lies in few directories and has the name of its original. -/
theorem Path.CopyOf.exists_parts {c o : Path} (h : c.CopyOf o) :
    ∃ dirs file, c = ⟨0, dirs ++ [file]⟩ ∧ (∀ name ∈ dirs, IsWord name) ∧
      Text.endsWith file ".php" = true ∧ dirs.length ≤ 2 ∧ file ∈ o.parts := by
  obtain ⟨dirs, file, hc, -, hwords, hphp, -⟩ := h.copy
  rcases h.place with ⟨a, studly, file', rfl, rfl⟩ | ⟨file', rfl, rfl⟩
  · obtain ⟨rfl, hfile⟩ := List.append_inj' (congrArg Path.parts hc) rfl
    obtain rfl := List.singleton_inj.1 hfile
    exact ⟨_, _, rfl, hwords, hphp, a.length_copyDirs_le studly, by simp⟩
  · have hparts : ["routes"] ++ [file'] = dirs ++ [file] := congrArg Path.parts hc
    obtain ⟨rfl, hfile⟩ := List.append_inj' hparts rfl
    obtain rfl := List.singleton_inj.1 hfile
    exact ⟨_, _, rfl, hwords, hphp, by simp, by simp⟩

theorem Path.IsTarget.eq_of_parts {o o' : Path} (h : o.IsTarget) (h' : o'.IsTarget)
    (hparts : o.parts = o'.parts) : o = o' := by
  obtain ⟨dirs, file, rfl, -⟩ := h
  obtain ⟨dirs', file', rfl, -⟩ := h'
  exact congrArg (Path.mk 0) hparts

namespace BackupStore

open Disk DiskOp

variable {b : BackupStore} {session : Path} {d₀ d d' : Disk} {place l : Location} {o c : Path}

/-! ## Inside a session -/

/-- A location, or one that is reached from it through words. -/
def Folders (place l : Location) : Prop := ∃ q, l = place ++ q ∧ ∀ name ∈ q, IsWord name

/-- The locations below another one. -/
def Contents (place l : Location) : Prop := place <+: l ∧ l ≠ place

theorem not_folders_of_php {l : Location} {file : String} (h : Text.endsWith file ".php" = true)
    (hl : place ≠ l ++ [file]) : ¬Folders place (l ++ [file]) := by
  rintro ⟨q, hq, hwords⟩
  rcases List.eq_nil_or_concat q with rfl | ⟨before, name, rfl⟩
  · rw [List.append_nil] at hq
    exact hl hq.symm
  · rw [List.concat_eq_append, ← List.append_assoc] at hq
    obtain rfl := List.singleton_inj.1 (List.append_inj' hq rfl).2
    exact ne_of_endsWith h (.inl ((hwords file (by simp)).not_mem (by decide))) rfl

/-- The name is one of a file in a session: of a copy, or of the manifest. -/
def IsStored (name : String) : Prop := Text.endsWith name ".php" = true ∨ name = manifestName

/-- The locations below another one at which files of a session may lie. -/
def Stored (place l : Location) : Prop :=
  place <+: l ∧ l ≠ place ∧ ∃ name, l.getLast? = some name ∧ IsStored name

theorem stored_append {q : List String} {name : String} (h : IsStored name) :
    Stored place (place ++ (q ++ [name])) :=
  ⟨List.prefix_append _ _, by simp, name, by rw [← List.append_assoc, List.getLast?_concat], h⟩

/-- The location is that of a copy in a session. -/
def Copied (place l : Location) : Prop := ∃ o c : Path, c.CopyOf o ∧ l = place ++ c.parts

theorem Copied.stored (h : Copied place l) : Stored place l := by
  obtain ⟨o, c, hc, rfl⟩ := h
  obtain ⟨dirs, file, rfl, -, hphp, -⟩ := hc.exists_parts
  exact stored_append (.inl hphp)

/-- Directories below a directory that is there are made below it. -/
theorem changes_makeDirs_below (hwf : d.WellFormed) (hdir : d.isDir session = .ok true)
    (hspelled : session.Spelled) {dirs : List String} (hwords : ∀ name ∈ dirs, IsWord name) :
    Ends (makeDirs ⟨session.slashes, session.parts ++ dirs⟩) d
      (fun _ d' ↦ Changes (Folders (d.resolve session)) nowhere d d')
      fun _ d' ↦ Changes (Folders (d.resolve session)) nowhere d d' := by
  obtain ⟨hlocate, hnode⟩ := isDir_eq_true_iff.1 hdir
  have hplain : ".." ∉ dirs := fun hmem ↦ (hwords _ hmem).ne_dots rfl
  have hanchor : d.Anchored ⟨session.slashes, session.parts ++ dirs⟩ :=
    (anchoredFrom_append _ _ _ _).2 ⟨anchored_of_locate hlocate, anchoredFrom_of_plain _ _ hplain⟩
  refine DiskOp.changes_makeDirs hwf (List.forall_mem_append.2
    ⟨hspelled, fun name hname ↦ (hwords name hname).not_mem (by decide)⟩) ?_
  intro a ha hnone
  have hpre := prefix_resolve hwf hanchor ha hnone
  rw [resolve_append _ _ _ hplain] at hpre
  rcases List.prefix_or_prefix_of_prefix hpre (List.prefix_append _ _) with habove | ⟨q, hq⟩
  · -- The session and what is above it are there.
    have hdir : d.node? (d.resolve ⟨session.slashes, a⟩) = some .dir := by
      by_cases heq : d.resolve ⟨session.slashes, a⟩ = d.resolve session
      · rw [heq, hnode]
      · exact hwf.isSome_of_prefix habove heq (by rw [hnode]; rfl)
    rw [hdir] at hnone
    cases hnone
  · rw [← hq, List.prefix_append_right_inj] at hpre
    exact ⟨q, hq.symm, fun name hname ↦ hwords name (hpre.subset hname)⟩

/-! ## Opening -/

/-- The last name of the location is among the names. -/
def Named (names : List String) (l : Location) : Prop := ∃ name ∈ names, l.getLast? = some name

theorem follow_prefix_or_named (place : Location) (parts : List String) :
    follow place parts <+: place ∨ Named parts (follow place parts) := by
  induction parts generalizing place with
  | nil => exact .inl (List.prefix_refl _)
  | cons part rest ih =>
    have hmore {l : Location} : Named rest l → Named (part :: rest) l := fun ⟨name, hname, hl⟩ ↦
      ⟨name, List.mem_cons_of_mem _ hname, hl⟩
    by_cases hpart : part = ".."
    · subst hpart
      exact (ih place.dropLast).imp (·.trans (List.dropLast_prefix _)) hmore
    · rw [follow_down _ _ hpart]
      rcases ih (place ++ [part]) with hpre | hnamed
      · rcases List.prefix_concat_iff.1 hpre with heq | hpre
        · exact .inr ⟨part, by simp, by rw [heq, List.getLast?_concat]⟩
        · exact .inl hpre
      · exact .inr (hmore hnamed)

/-- Where nothing stands a path leads to one of its names. -/
theorem named_resolve (hwf : d.WellFormed) {slashes : Nat} {a names : List String}
    (ha : a ⊆ names) (hnone : d.node? (d.resolve ⟨slashes, a⟩) = none) :
    Named names (d.resolve ⟨slashes, a⟩) := by
  rcases follow_prefix_or_named (d.start ⟨slashes, a⟩) a with hpre | ⟨name, hname, hl⟩
  · have hstart : d.node? (d.start ⟨slashes, a⟩) = some .dir := by
      rw [start]
      split
      · rfl
      · exact hwf.cwd
    rw [resolve_eq_follow] at hnone
    by_cases heq : follow (d.start ⟨slashes, a⟩) a = d.start ⟨slashes, a⟩
    · rw [heq, hstart] at hnone
      cases hnone
    · rw [hwf.isSome_of_prefix hpre heq (by rw [hstart]; rfl)] at hnone
      cases hnone
  · exact ⟨name, ha hname, hl⟩

/-- A directory is made where nothing stands, and it is empty. -/
theorem changes_makeNewDir (dirs : Location → Prop) (hwf : d.WellFormed)
    (hspelled : session.Spelled) (hdirs : ∀ a, a <+: session.parts → d.node? (d.resolve ⟨session.slashes, a⟩) = none →
      dirs (d.resolve ⟨session.slashes, a⟩)) :
    Ends (makeNewDir session) d
      (fun _ d' ↦ Changes dirs nowhere d d' ∧ d'.isDir session = .ok true ∧
        (∀ l, Contents (d'.resolve session) l → d'.node? l = none) ∧
          d.node? (d.resolve session) = none)
      fun _ d' ↦ Changes dirs nowhere d d' := by
  have hparent : session.parent.parts <+: session.parts := List.dropLast_prefix _
  rw [makeNewDir, ends_bind]
  refine (DiskOp.changes_makeDirs hwf (fun part hpart ↦ hspelled part (hparent.subset hpart))
    fun a ha hnone ↦ hdirs a (ha.trans hparent) hnone).mono (fun _ d₁ h₁ ↦ ?_) fun _ _ ↦ id
  refine ends_makeDir.2 ⟨fun l hl hnone ↦ ?_, fun _ _ _ ↦ h₁, fun _ _ ↦ h₁⟩
  have hfree : d₁.node? l ≠ some .dir := by rw [hnone]; simp
  have hdir : dirs l := by
    obtain rfl := locate_eq_resolve hl
    rw [h₁.resolve_eq] at hnone ⊢
    exact hdirs _ (List.prefix_refl _) (h₁.node?_eq_none hnone)
  obtain ⟨q, x, rfl, hplace, hname⟩ := h₁.wellFormed.exists_child_of_locate hspelled hl hfree
  have hput : Changes _ nowhere d₁ _ := .put_dir h₁.wellFormed hplace hname hnone
  have hresolve : (d₁.put (q ++ [x]) .dir).resolve session = q ++ [x] := by
    rw [hput.resolve_eq, ← locate_eq_resolve hl]
  refine ⟨h₁.trans (hput.mono (fun _ hl ↦ hl ▸ hdir) fun _ ↦ id), isDir_eq_true_iff.2 ?_, ?_, ?_⟩
  · rw [hresolve]
    exact ⟨hput.locate_eq_ok hl, by rw [node?_put _ _ _ (by simp), if_pos rfl]⟩
  · rw [hresolve]
    rintro l ⟨hpre, hne⟩
    rw [node?_put _ _ _ (by simp), if_neg hne]
    by_contra hsome
    rw [← ne_eq, Option.ne_none_iff_isSome] at hsome
    rw [h₁.wellFormed.isSome_of_prefix hpre hne.symm hsome] at hnone
    cases hnone
  · rw [← h₁.resolve_eq, ← locate_eq_resolve hl]
    exact h₁.node?_eq_none hnone

/-- How a session is opened: its directory gets the first free name of a moment, and on an anchored
path the directories that are made are those above it. -/
structure Opening (b : BackupStore) (m : Moment) (session : Path) (d d' : Disk) : Prop where
  name : session = b.folder.child (freeName (d.list b.folder) m.backupStamp)
  changes : Changes (Named session.parts) nowhere d d'
  free : d.node? (d.resolve session) = none
  above : d.Anchored session → Changes (· <+: d.resolve session) nowhere d d'

theorem opening_makeNewDir {m : Moment} (hwf : d.WellFormed) (hspelled : session.Spelled)
    (hname : session = b.folder.child (freeName (d.list b.folder) m.backupStamp)) :
    Ends (makeNewDir session) d
      (fun _ d' ↦ Opening b m session d d' ∧ d'.isDir session = .ok true ∧
        ∀ l, Contents (d'.resolve session) l → d'.node? l = none)
      fun _ d' ↦ Changes (Named session.parts) nowhere d d' := by
  have habove := Ends.imp fun hanchor : d.Anchored session ↦
    changes_makeNewDir (· <+: d.resolve session) hwf hspelled fun _ ha hnone ↦
      prefix_resolve hwf hanchor ha hnone
  refine ((changes_makeNewDir (Named session.parts) hwf hspelled fun a ha hnone ↦
    named_resolve hwf ha.subset hnone).and habove).mono ?_ fun _ _ ↦ And.left
  rintro _ d' ⟨⟨hchanges, hisDir, hempty, hfree⟩, habove⟩
  exact ⟨⟨hname, hchanges, hfree, fun hanchor ↦ (habove hanchor).1⟩, hisDir, hempty⟩

theorem failsPlainly_makeNewDir (h : Clean session)
    (hdeep : d.missingFrom (d.start session) session.parts.dropLast ≤ deepest) :
    FailsPlainly (makeNewDir session) d :=
  failsPlainly_bind (failsPlainly_makeDirs (Clean.parent h) hdeep) fun _ _ ↦ failsPlainly_makeDir h

/-! ## Filling -/

/-- Every file has stayed a file. -/
abbrev Retains (d d' : Disk) : Prop := ∀ l, (d.file? l).isSome → (d'.file? l).isSome

/-- Copies have come into a session since it was opened. -/
structure Filling (b : BackupStore) (session : Path) (d₀ d : Disk) : Prop where
  copies : Grows (Folders (d₀.resolve session)) (Copied (d₀.resolve session)) d₀ d
  held : d₀.Anchored b.root → ∀ o c : Path, c.CopyOf o →
    d.file? (d₀.resolve session ++ c.parts) = none ∨
      d.file? (d₀.resolve session ++ c.parts) = d₀.file? (d₀.resolve b.root ++ o.parts)
  /-- A project in the session has nothing that could be copied. -/
  apart : d₀.Anchored b.root → d₀.resolve session <+: d₀.resolve b.root → d = d₀

theorem New.filling (h : New b session d₀) : Filling b session d₀ d₀ where
  copies := .refl h.wellFormed
  held _ _ _ hc := .inl <| file?_eq_none_iff.2 <| .inl <|
    h.isEmpty _ (List.prefix_append _ _) (by
      obtain ⟨dirs, file, rfl, -⟩ := hc.copy
      simp)
  apart _ _ := rfl

namespace Filling

variable (h : Filling b session d₀ d)

include h

theorem grows : Grows (Folders (d₀.resolve session)) (Stored (d₀.resolve session)) d₀ d :=
  h.copies.mono (fun _ ↦ id) fun _ ↦ Copied.stored

theorem isDir (hnew : New b session d₀) : d.isDir session = .ok true := by
  obtain ⟨hlocate, hnode⟩ := isDir_eq_true_iff.1 hnew.isDir
  rw [isDir_eq_true_iff, h.grows.resolve_eq]
  exact ⟨h.grows.locate_eq_ok hlocate, h.grows.keeps _ hnode⟩

/-- No directory takes the place of a copy. -/
theorem node?_ne_dir (hnew : New b session d₀) (hc : c.CopyOf o) :
    d.node? (d₀.resolve session ++ c.parts) ≠ some .dir := by
  obtain ⟨dirs, file, rfl, -, -, hphp, -⟩ := hc.copy
  intro hdir
  rcases h.grows.comes _ hdir with hdir | hfolder
  · rw [hnew.isEmpty _ (List.prefix_append _ _) (by simp)] at hdir
    cases hdir
  · rw [← List.append_assoc] at hfolder
    exact not_folders_of_php hphp (fun heq ↦ by simpa using congrArg List.length heq) hfolder

/-- What stands at an original stood there when the session was opened, outside of it. -/
theorem not_prefix (hnew : New b session d₀) (hanchor : d₀.Anchored b.root) (ho : o.IsTarget)
    (hthere : d.isThere (b.root ++ o) = .ok true) :
    ¬d₀.resolve session <+: d₀.resolve b.root ++ o.parts := by
  intro hpre
  have hroot := hnew.prefix_root ho hpre
  obtain rfl := h.apart hanchor hroot
  have hsome := (isThere_eq_true_iff.1 hthere).2
  rw [ho.resolve_eq] at hsome
  exact hnew.not_prefix_root ho hsome hroot

theorem file?_original (hnew : New b session d₀) (hanchor : d₀.Anchored b.root) (ho : o.IsTarget)
    (hthere : d.isThere (b.root ++ o) = .ok true) :
    d.file? (d.resolve (b.root ++ o)) = d₀.file? (d₀.resolve b.root ++ o.parts) := by
  rw [ho.resolve_eq, h.grows.resolve_eq]
  exact h.grows.same _ fun hstored ↦ h.not_prefix hnew hanchor ho hthere hstored.1

/-- Directories in the session are made in the session. -/
theorem changes_makeDirs (hnew : New b session d₀) {dirs : List String}
    (hwords : ∀ name ∈ dirs, IsWord name) :
    Ends (makeDirs ⟨session.slashes, session.parts ++ dirs⟩) d
      (fun _ d' ↦ Changes (Folders (d₀.resolve session)) nowhere d d')
      fun _ d' ↦ Changes (Folders (d₀.resolve session)) nowhere d d' := by
  rw [← h.grows.resolve_eq session]
  exact changes_makeDirs_below h.grows.wellFormed (h.isDir hnew) hnew.sessionSpelled hwords

theorem failsPlainly_copyFile (hnew : New b session d₀) (hc : c.CopyOf o)
    (hsource : Clean (b.root ++ o)) : FailsPlainly (copyFile (b.root ++ o) (session ++ c)) d := by
  obtain ⟨hlocate, hnode⟩ := isDir_eq_true_iff.1 (h.isDir hnew)
  have hfault := pathFault?_of_locate hlocate
  obtain ⟨dirs, file, rfl, hwords, -, hshort, hfile⟩ := hc.exists_parts
  have htarget : session ++ (⟨0, dirs ++ [file]⟩ : Path) =
      ⟨session.slashes, session.parts ++ dirs ++ [file]⟩ := by
    rw [hc.copy.append_eq, List.append_assoc]
  rw [hc.original.append_eq] at hsource
  rw [htarget]
  refine DiskOp.failsPlainly_copyFile (hc.original.append_eq _ ▸ hsource) ?_ ?_
  · refine List.forall_mem_append.2 ⟨List.forall_mem_append.2 ⟨Clean.of_pathFault? hfault,
      fun name hname ↦ (hwords name hname).not_mem (by decide)⟩, List.forall_mem_singleton.2 ?_⟩
    exact hsource _ (List.mem_append_right _ hfile)
  · rw [locate_eq_walk hfault] at hlocate
    rw [List.dropLast_concat, start_mk _ _ _ session.parts, missingFrom_append hlocate hnode]
    exact (missingFrom_le_length _ _ _).trans (hshort.trans (by decide))

/-- Outside of the session the same targets stand as when it was opened. -/
theorem isSome_iff (hnew : New b session d₀) (hanchor : d₀.Anchored b.root) (ho : o.IsTarget) :
    (d.node? (d₀.resolve b.root ++ o.parts)).isSome ↔
      (d₀.node? (d₀.resolve b.root ++ o.parts)).isSome := by
  by_cases hpre : d₀.resolve session <+: d₀.resolve b.root ++ o.parts
  · rw [h.apart hanchor (hnew.prefix_root ho hpre)]
  · exact h.grows.isSome_iff (fun ⟨q, hq, _⟩ ↦ hpre ⟨q, hq.symm⟩) fun hstored ↦ hpre hstored.1

theorem not_refuses {p : Path} (hnew : New b session d₀) (hanchor : d₀.Anchored p)
    (hopen : ¬d.Refuses p) : ¬d₀.Refuses p :=
  fun hrefuses ↦ hopen (h.grows.refuses hnew.wellFormed hanchor hrefuses)

/-- A copy comes into its directory in the session, or its way there at most. -/
theorem ends_copyFile (hnew : New b session d₀) (hc : c.CopyOf o)
    (hthere : d.isThere (b.root ++ o) = .ok true) :
    Ends (copyFile (b.root ++ o) (session ++ c)) d
      (fun _ d' ↦ Filling b session d₀ d' ∧ Retains d d' ∧
        (d'.file? (d₀.resolve session ++ c.parts)).isSome ∧ pathFault? (session ++ c) = none ∧
          (d.file? (d.resolve (b.root ++ o))).isSome)
      fun e d' ↦ Filling b session d₀ d' ∧ Retains d d' ∧
        e.fault.IsPlain := by
  have hsource := Clean.of_pathFault? (pathFault?_of_locate (isThere_eq_true_iff.1 hthere).1)
  have hplace : d.resolve (session ++ c) = d₀.resolve session ++ c.parts := by
    rw [hc.copy.resolve_eq, h.grows.resolve_eq session]
  have hnot (hanchor : d₀.Anchored b.root) : ¬d₀.resolve session <+: d₀.resolve b.root := fun hroot ↦
    h.not_prefix hnew hanchor hc.original hthere (hroot.trans (List.prefix_append _ _))
  have hcopy : Ends (copyFile (b.root ++ o) (session ++ c)) d
      (fun _ d' ↦ ∃ content, d.file? (d.resolve (b.root ++ o)) = some content ∧
        Changes (Folders (d₀.resolve session)) (· = d.resolve (session ++ c)) d d' ∧
          d'.locate (session ++ c) = .ok (d.resolve (session ++ c)) ∧
            d'.file? (d.resolve (session ++ c)) = some content)
      fun _ d' ↦ Changes (Folders (d₀.resolve session)) nowhere d d' := by
    refine changes_copyFile (hc.copy.spelled_append hnew.sessionSpelled) ?_
      (hplace ▸ h.node?_ne_dir hnew hc) ?_
    · obtain ⟨dirs, file, rfl, hwords, -⟩ := hc.exists_parts
      rw [hc.copy.append_eq, Path.parent]
      simp only [← List.append_assoc, List.dropLast_concat]
      exact h.changes_makeDirs hnew hwords
    · rw [hplace]
      obtain ⟨dirs, file, rfl, -, hphp, -⟩ := hc.exists_parts
      simp only [← List.append_assoc]
      exact not_folders_of_php hphp fun heq ↦ by simpa using congrArg List.length heq
  refine (hcopy.and (h.failsPlainly_copyFile hnew hc hsource)).mono ?_ ?_
  · rintro _ d' ⟨⟨content, hread, hchanges, hlocated, hfile⟩, -⟩
    rw [hplace] at hchanges hlocated hfile
    have hgrows : Grows (Folders (d₀.resolve session)) (· = d₀.resolve session ++ c.parts) d d' :=
      hchanges.grows fun l hl ↦ by rw [hl, hfile]; rfl
    refine ⟨⟨h.copies.trans (hgrows.mono (fun _ ↦ id) fun l hl ↦ ⟨o, c, hc, hl⟩), ?_, ?_⟩,
      hgrows.stays, by rw [hfile]; rfl, pathFault?_of_locate hlocated, by rw [hread]; rfl⟩
    · intro hanchor o' c' hc'
      by_cases heq : c' = c
      · subst heq
        obtain rfl := hc'.eq hc
        rw [hfile, ← hread, h.file?_original hnew hanchor hc.original hthere]
        exact .inr rfl
      · rw [hgrows.same _ fun hl ↦ heq (hc'.copy.eq_of_parts hc.copy (List.append_cancel_left hl))]
        exact h.held hanchor o' c' hc'
    · exact fun hanchor hroot ↦ absurd hroot (hnot hanchor)
  · rintro e d' ⟨hchanges, hplainly⟩
    have hgrows : Grows (Folders (d₀.resolve session)) nowhere d d' :=
      hchanges.grows fun _ ↦ False.elim
    refine ⟨⟨h.copies.trans (hgrows.mono (fun _ ↦ id) fun _ ↦ False.elim), fun hanchor o' c' hc' ↦ ?_,
      fun hanchor hroot ↦ absurd hroot (hnot hanchor)⟩, hgrows.stays, hplainly⟩
    rw [hgrows.same _ id]
    exact h.held hanchor o' c' hc'

end Filling

end BackupStore

end Scaffold
