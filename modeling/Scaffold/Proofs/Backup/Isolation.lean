import Scaffold.Proofs.Backup.Series

/-!
# A new backup among old ones

The search for the name of a session comes to an end, because only finitely many names are in use. It
finds the first name of the stamp at which nothing stands. Everything that a backup does after that
happens below the directory of that name, so nothing that was on the disk before is touched.
-/

namespace Scaffold

/-- A text whose characters take one byte each has as many bytes as characters. -/
theorem utf8ByteSize_of_forall {s : String} (h : ∀ c ∈ s.toList, c.utf8Size = 1) :
    s.utf8ByteSize = s.toList.length := by
  obtain ⟨l, rfl⟩ : ∃ l, s = String.ofList l := ⟨s.toList, by simp⟩
  rw [String.toList_ofList] at h ⊢
  induction l with
  | nil => rfl
  | cons c rest ih =>
    rw [List.forall_mem_cons] at h
    rw [String.ofList_cons, String.utf8ByteSize_append, String.utf8ByteSize_singleton, h.1, ih h.2,
      List.length_cons, Nat.add_comm]

theorem IsSessionName.utf8ByteSize_eq {name : String} (h : IsSessionName name) :
    name.utf8ByteSize = name.toList.length := by
  refine utf8ByteSize_of_forall fun c hc ↦ ?_
  rcases h.chars c hc with hdigit | rfl | rfl
  · rw [Char.isDigit, Bool.and_eq_true, decide_eq_true_eq, decide_eq_true_eq] at hdigit
    exact Char.utf8Size_eq_one_iff.2 (UInt32.le_trans hdigit.2 (by decide))
  · rfl
  · rfl

namespace BackupStore

open Disk DiskOp

variable {b : BackupStore} {session : Path} {name : String} {k j : ℕ}
  {d d₀ d' : Disk} {s : Scene} {p source target : Path} {content : ByteArray}

/-! ## Names -/

theorem sessionName_injective (stamp : String) : Function.Injective (sessionName stamp) := by
  intro j k h
  have htexts := congrArg String.toList h
  rw [toList_sessionName, toList_sessionName] at htexts
  exact suffix_injective (List.append_cancel_left htexts)

/-- The free name is the first one that is not in use. -/
theorem exists_freeName (used : List String) (stamp : String) :
    ∃ k, freeName used stamp = sessionName stamp k ∧ sessionName stamp k ∉ used ∧
      ∀ j < k, sessionName stamp j ∈ used := by
  obtain ⟨k, hfind, hfree⟩ := exists_find?_range (sessionName_injective stamp) used
  refine ⟨k, by rw [freeName, hfind]; rfl, hfree, fun j hj ↦ ?_⟩
  simpa using (List.find?_range_eq_some.1 hfind).2.2 j hj

/-- A larger number has at least as many digits. -/
theorem length_toDigits_le (h : j ≤ k) :
    (Nat.toDigits 10 j).length ≤ (Nat.toDigits 10 k).length := by
  have hlength : 0 < (Nat.toDigits 10 k).length := List.length_pos_of_ne_nil Nat.toDigits_ne_nil
  have hk : k < 10 ^ (Nat.toDigits 10 k).length :=
    (Nat.length_toDigits_le_iff (by decide) hlength).1 le_rfl
  exact (Nat.length_toDigits_le_iff (by decide) hlength).2 (h.trans_lt hk)

/-- Later names are not shorter. -/
theorem size_sessionName_le {m : Moment} (h : j ≤ k) :
    (sessionName m.backupStamp j).utf8ByteSize ≤ (sessionName m.backupStamp k).utf8ByteSize := by
  rw [(isSessionName_sessionName m j).utf8ByteSize_eq, (isSessionName_sessionName m k).utf8ByteSize_eq,
    toList_sessionName, toList_sessionName, List.length_append, List.length_append]
  apply Nat.add_le_add_left
  by_cases hj : j = 0
  · simp [suffix, hj]
  · have hk : k ≠ 0 := by omega
    simpa [suffix, hj, hk] using length_toDigits_le h

/-- If a later name makes a path that can be used then so does an earlier one. -/
theorem pathFault?_sessionName {m : Moment} (hjk : j ≤ k)
    (h : pathFault? (b.folder.child (sessionName m.backupStamp k)) = none) :
    pathFault? (b.folder.child (sessionName m.backupStamp j)) = none := by
  have hsize (name : String) : (b.folder.child name).toString.utf8ByteSize =
      (b.folder.child "").toString.utf8ByteSize + name.utf8ByteSize := by
    rw [Path.child, Path.child, toString_of_ne_nil _ (by simp), toString_of_ne_nil _ (by simp)]
    rcases eq_or_ne b.folder.parts [] with hnil | hne
    · simp [hnil]
    · rw [String.intercalate_append_of_ne_nil hne (by simp),
        String.intercalate_append_of_ne_nil hne (by simp)]
      simp only [String.utf8ByteSize_append, String.intercalate_singleton]
      rw [String.utf8ByteSize_empty]
      omega
  rw [pathFault?_eq_none_iff] at h ⊢
  obtain ⟨hnul, hshort⟩ := h
  refine ⟨fun part hpart ↦ ?_, ?_⟩
  · rcases List.mem_append.1 hpart with hpart | hpart
    · exact hnul part (List.mem_append_left _ hpart)
    · rw [List.mem_singleton.1 hpart]
      exact (isSessionName_sessionName m j).char_not_mem (by decide)
  · have hle := size_sessionName_le (m := m) hjk
    rw [hsize] at hshort ⊢
    omega

/-! ## Names on a disk -/

/-- What stands in the directory of the backups is listed. -/
theorem mem_list_of_isThere (hname : name ≠ "..")
    (h : d.isThere (b.folder.child name) = .ok true) : name ∈ d.list b.folder := by
  obtain ⟨hlocate, hsome⟩ := isThere_eq_true_iff.1 h
  have hfolder := (isDir_eq_true_iff.1 (isDir_of_locate hlocate (by simp))).1
  have hplace : d.resolve (b.folder.child name) = d.resolve b.folder ++ [name] :=
    resolve_append _ _ _ (by simpa using hname.symm)
  rw [Disk.list, hfolder, mem_namesIn, ← hplace]
  exact hsome

/-- What is listed in the directory of the backups stands there, if its path is not too long. -/
theorem isThere_of_mem_list (hwf : d.WellFormed) (hname : name ≠ "..")
    (hfault : pathFault? (b.folder.child name) = none) (h : name ∈ d.list b.folder) :
    d.isThere (b.folder.child name) = .ok true := by
  rw [Disk.list] at h
  split at h
  · next place hlocate =>
    rw [locate_eq_resolve hlocate, mem_namesIn] at h
    have hplain : ".." ∉ [name] := by simpa using hname.symm
    have hplace : d.resolve (b.folder.child name) = d.resolve b.folder ++ [name] :=
      resolve_append _ _ _ hplain
    rw [← hplace] at h
    refine isThere_eq_true_iff.2 ⟨?_, h⟩
    rw [locate_eq_walk hfault]
    exact hwf.walk_eq_ok ((anchoredFrom_append _ _ _ _).2
      ⟨anchored_of_locate hlocate, anchoredFrom_of_plain _ _ hplain⟩) h
  · cases h

/-- The search for a name comes to an end. -/
theorem exists_not_isThere (d : Disk) (b : BackupStore) (m : Moment) :
    ∃ k, d.isThere (b.folder.child (sessionName m.backupStamp k)) ≠ .ok true := by
  obtain ⟨k, -, hfree, -⟩ := exists_freeName (d.list b.folder) m.backupStamp
  exact ⟨k, fun hthere ↦ hfree (mem_list_of_isThere (isSessionName_sessionName m k).ne_dots hthere)⟩

/-! ## Staying in a session -/

/-- A file that can be read has a name of its own. -/
theorem name_of_readBytes (hwf : d.WellFormed) (h : d.readBytes p = .ok content) :
    p.name ≠ ".." ∧ '/' ∉ p.name.toList := by
  obtain ⟨hlocate, hfile⟩ := readBytes_eq_ok_iff.1 h
  rw [locate_eq_walk (pathFault?_of_locate hlocate)] at hlocate
  rw [file?_eq_some_iff] at hfile
  rcases List.eq_nil_or_concat p.parts with hparts | ⟨before, x, hparts⟩
  · rw [Path.name, hparts]
    decide
  rw [List.concat_eq_append] at hparts
  have hname : p.name = x := by rw [Path.name, hparts, List.getLast?_concat]; rfl
  rw [hparts, walk_append] at hlocate
  rcases hbefore : d.walk (d.start p) before with fault | q
  · rw [hbefore] at hlocate
    cases hlocate
  · have hlast : d.walk q [x] = .ok (d.resolve p) := by
      rw [hbefore] at hlocate
      exact hlocate
    have hdir := dir_of_walk hlast
    rw [hname]
    by_cases hup : x = ".."
    · -- What a path leads up to is a directory.
      rw [hup, walk_up _ _ _ hdir] at hlast
      obtain hplace : q.dropLast = d.resolve p := Except.ok.inj hlast
      rw [← hplace] at hfile
      rcases List.eq_nil_or_concat q with rfl | ⟨above, y, rfl⟩
      · cases hfile
      · rw [List.concat_eq_append, List.dropLast_concat] at hfile
        rw [List.concat_eq_append] at hdir
        rw [(hwf.parent _ _ _ hdir).1] at hfile
        cases hfile
    · rw [walk_down _ _ _ hdir hup] at hlast
      split at hlast
      · cases hlast
      · obtain hplace : q ++ [x] = d.resolve p := Except.ok.inj hlast
        rw [← hplace] at hfile
        exact ⟨hup, (hwf.parent _ _ _ hfile).2.noSlash⟩

/-- A path has the name of its last part. -/
theorem name_append (p q : Path) : (p ++ q).name = q.name ∨ q.name = "" := by
  rcases List.eq_nil_or_concat q.parts with hparts | ⟨before, x, hparts⟩
  · right
    rw [Path.name, hparts]
    rfl
  · left
    change (p.join q).name = q.name
    rw [Path.join]
    split
    · rw [Path.name, Path.name, hparts, List.concat_eq_append, ← List.append_assoc,
        List.getLast?_concat, List.getLast?_concat]
    · rfl

/-- Since the session was opened nothing has changed but what is below its directory. -/
abbrev Confined (session : Path) (d₀ d : Disk) : Prop :=
  Changes (d₀.resolve session <+: ·) (Contents (d₀.resolve session)) d₀ d

theorem Confined.isDir (h : Confined session d₀ d) (hdir : d₀.isDir session = .ok true) :
    d.isDir session = .ok true := by
  obtain ⟨hlocate, hnode⟩ := isDir_eq_true_iff.1 hdir
  rw [isDir_eq_true_iff, h.resolve_eq]
  exact ⟨h.locate_eq_ok hlocate, h.keeps _ hnode⟩

/-- A file that is written below the session is written there. -/
theorem Confined.ends_write (h : Confined session d₀ d) (hspelled : session.Spelled)
    (names : List String) (hne : names ≠ [])
    (hnames : ∀ part ∈ names, '/' ∉ part.toList ∧ part ≠ "..") (content : ByteArray) :
    Ends (write ⟨session.slashes, session.parts ++ names⟩ content) d
      (fun _ d' ↦ Confined session d₀ d') fun _ d' ↦ Confined session d₀ d' := by
  have hplain : ".." ∉ names := fun hmem ↦ (hnames _ hmem).2 rfl
  have hplace : d.resolve ⟨session.slashes, session.parts ++ names⟩ = d₀.resolve session ++ names := by
    rw [h.resolve_eq, resolve_append _ _ _ hplain]
  have hpath : Path.Spelled ⟨session.slashes, session.parts ++ names⟩ :=
    List.forall_mem_append.2 ⟨hspelled, fun part hpart ↦ (hnames part hpart).1⟩
  refine (changes_write h.wellFormed hpath).mono ?_ ?_
  · rintro _ d' ⟨hchanges, -⟩
    rw [hplace] at hchanges
    refine h.trans (hchanges.mono (fun _ ↦ False.elim) ?_)
    rintro _ rfl
    exact ⟨List.prefix_append _ _, by simpa using hne⟩
  · rintro _ d' rfl
    exact h

/-- A copy that goes below the session changes nothing else. -/
theorem Confined.ends_copyFile (h : Confined session d₀ d) (hdir : d₀.isDir session = .ok true)
    (hspelled : session.Spelled) (dirs : List String) {name : String}
    (hwords : ∀ part ∈ dirs, IsWord part) (hname : name = source.name ∨ name = "") :
    Ends (copyFile source (session ++ ⟨0, dirs ++ [name]⟩)) d
      (fun _ d' ↦ Confined session d₀ d') fun _ d' ↦ Confined session d₀ d' := by
  have htarget : session ++ (⟨0, dirs ++ [name]⟩ : Path) =
      ⟨session.slashes, session.parts ++ (dirs ++ [name])⟩ := Path.append_eq _ rfl
  have hparent : Path.parent ⟨session.slashes, session.parts ++ (dirs ++ [name])⟩ =
      ⟨session.slashes, session.parts ++ dirs⟩ := by
    simp only [Path.parent, ← List.append_assoc, List.dropLast_concat]
  rw [htarget, copyFile, ends_bind, hparent]
  have hmake := changes_makeDirs_below h.wellFormed (h.isDir hdir) hspelled hwords
  rw [h.resolve_eq] at hmake
  have hstep (d₁ : Disk) (h₁ : Changes (Folders (d₀.resolve session)) nowhere d d₁) :
      Confined session d₀ d₁ := by
    refine h.trans (h₁.mono ?_ fun _ ↦ False.elim)
    rintro _ ⟨q, rfl, -⟩
    exact List.prefix_append _ _
  refine hmake.mono (fun _ d₁ h₁ ↦ ends_copyOnto_of fun q hq ↦ ⟨fun _ ↦ hstep d₁ h₁, ?_⟩)
    fun _ d₁ ↦ hstep d₁
  rw [ends_bind, ends_ask]
  refine ⟨fun content hread ↦ ?_, fun _ _ ↦ hstep d₁ h₁⟩
  have hsource := name_of_readBytes h₁.wellFormed hread
  have hlast : '/' ∉ name.toList ∧ name ≠ ".." := by
    rcases hname with rfl | rfl
    · exact ⟨hsource.2, hsource.1⟩
    · decide
  have hnames : ∀ part ∈ dirs ++ [name], '/' ∉ part.toList ∧ part ≠ ".." :=
    List.forall_mem_append.2 ⟨fun part hpart ↦
      ⟨(hwords part hpart).not_mem (by decide), (hwords part hpart).ne_dots⟩,
      List.forall_mem_singleton.2 hlast⟩
  rcases hq with ⟨rfl, -⟩ | ⟨rfl, -⟩
  · exact (hstep d₁ h₁).ends_write hspelled _ (by simp) hnames content
  · rw [Path.child, List.append_assoc]
    refine (hstep d₁ h₁).ends_write hspelled _ (by simp)
      (List.forall_mem_append.2 ⟨hnames, ?_⟩) content
    exact List.forall_mem_singleton.2 ⟨hsource.2, hsource.1⟩

/-! ## The whole backup -/

/-- Whatever stood anywhere stands there, a file with the same bytes. -/
def Undisturbed (d d' : Disk) : Prop := ∀ l n, d.node? l = some n → d'.node? l = some n

theorem undisturbed_of_changes {dirs files : Location → Prop} (h : Changes dirs files d d')
    (hempty : ∀ l, files l → d.node? l = none) : Undisturbed d d' := by
  intro l n hn
  cases n with
  | dir => exact h.keeps l hn
  | file content =>
    have hfile : ¬files l := fun hl ↦ by
      rw [hempty l hl] at hn
      cases hn
    rw [← file?_eq_some_iff, h.same l hfile, file?_eq_some_iff, hn]

/-- Once a session is open all that a backup does stays in it. -/
theorem Confined.preserves_copies (hdir : d₀.isDir session = .ok true) (hspelled : session.Spelled)
    {cs : List Configuration} (hwords : ∀ c ∈ cs, c.studly = "" ∨ IsWord c.studly) :
    Run.PreservesDisk (Confined session d₀) (b.backupEntities session cs) ∧
      Run.PreservesDisk (Confined session d₀) (b.backupShared session) := by
  constructor
  · refine preserves_backupEntities fun c hc a o d hd ↦ ?_
    rw [Artifact.copyPath_eq_of_name]
    refine hd.ends_copyFile hdir hspelled _ (Artifact.isWord_of_mem_copyDirs (hwords c hc)) ?_
    exact (name_append b.root o).imp_left Eq.symm
  · exact preserves_backupShared fun d hd ↦
      hd.ends_copyFile hdir hspelled ["routes"] (by decide) (.inl rfl)

/-- Something is listed, so a path of which it is known that nothing stands there can be used. -/
theorem pathFault?_of_isThere {m : Moment} (hmem : name ∈ d.list b.folder)
    (hthere : d.isThere (b.folder.child (sessionName m.backupStamp k)) = .ok false) :
    pathFault? (b.folder.child (sessionName m.backupStamp k)) = none := by
  have hfolder : pathFault? b.folder = none := by
    rw [Disk.list] at hmem
    split at hmem
    · next hlocate => exact pathFault?_of_locate hlocate
    · cases hmem
  rcases pathFault?_cases (b.folder.child (sessionName m.backupStamp k)) with hnone | hnul | hlong
  · exact hnone
  · obtain ⟨part, hpart, hchar⟩ := (pathFault?_eq_nul_iff _).1 hnul
    rcases List.mem_append.1 hpart with hpart | hpart
    · exact absurd hchar (((pathFault?_eq_none_iff _).1 hfolder).1 part hpart)
    · rw [List.mem_singleton.1 hpart] at hchar
      exact absurd hchar ((isSessionName_sessionName m k).char_not_mem (by decide))
  · rw [isThere, holds, nodeAt, Disk.locate, hlong] at hthere
    cases hthere

/-- The first name at which nothing stands is the first one that is not listed. -/
theorem find_eq {m : Moment} (hwf : d.WellFormed)
    (hused : ∀ j < k, sessionName m.backupStamp j ∈ d.list b.folder)
    (hthere : d.isThere (b.folder.child (sessionName m.backupStamp k)) = .ok false)
    (h : ∃ k, d.isThere (b.folder.child (sessionName m.backupStamp k)) ≠ .ok true) :
    Nat.find h = k := by
  apply le_antisymm
  · exact Nat.find_le (by rw [hthere]; simp)
  · by_contra hless
    have hmem := hused _ (not_le.1 hless)
    apply Nat.find_spec h
    refine isThere_of_mem_list hwf (isSessionName_sessionName m _).ne_dots ?_ hmem
    exact pathFault?_sessionName (not_le.1 hless).le (pathFault?_of_isThere hmem hthere)

/-- A backup finds the first name of its stamp at which nothing stands, makes a directory there, and
leaves everything else on the disk as it was, whether or not it succeeds. -/
theorem ends_create_undisturbed (b : BackupStore) (hfolder : b.folder.Spelled)
    (cs : List Configuration) (hwords : ∀ c ∈ cs, c.studly = "" ∨ IsWord c.studly) (m : Moment)
    (s : Scene) (hwf : s.disk.WellFormed) :
    ∃ k, (∀ j < k, s.disk.isThere (b.folder.child (sessionName m.backupStamp j)) = .ok true) ∧
      s.disk.isThere (b.folder.child (sessionName m.backupStamp k)) ≠ .ok true ∧
      Ends (b.create cs m) s
        (fun manifest t ↦ manifest.timestamp = sessionName m.backupStamp k ∧
          s.disk.isThere (b.folder.child manifest.timestamp) = .ok false ∧
          s.disk.node? (s.disk.resolve (b.folder.child manifest.timestamp)) = none ∧
          t.disk.isDir (b.folder.child manifest.timestamp) = .ok true ∧
          Undisturbed s.disk t.disk)
        fun _ t ↦ Undisturbed s.disk t.disk := by
  have hends := exists_not_isThere s.disk b m
  refine ⟨Nat.find hends, fun j hj ↦ not_not.1 (Nat.find_min hends hj), Nat.find_spec hends, ?_⟩
  obtain ⟨k, hk, hfree, hused⟩ := exists_freeName (s.disk.list b.folder) m.backupStamp
  have hname := isSessionName_sessionName m k
  have hspelled : (b.folder.child (sessionName m.backupStamp k)).Spelled :=
    List.forall_mem_append.2 ⟨hfolder, List.forall_mem_singleton.2 (hname.char_not_mem (by decide))⟩
  have hsession : b.folder.child (sessionName m.backupStamp k) =
      b.folder.child (freeName (s.disk.list b.folder) m.backupStamp) := by rw [hk]
  rw [create, ends_bind, ends_get, hk]
  simp only
  rw [ends_bind, Run.ends_query]
  refine ⟨fun there hthere ↦ ?_, fun _ _ _ _ hl ↦ hl⟩
  cases there with
  | true => exact absurd (mem_list_of_isThere hname.ne_dots hthere) hfree
  | false =>
    have hfind : Nat.find hends = k := find_eq hwf hused hthere hends
    rw [hfind, ends_bind, Run.ends_onDisk]
    refine (opening_makeNewDir hwf hspelled hsession).mono ?_ fun _ d' hchanges ↦ ?_
    · rintro _ d₀ ⟨hopening, hdir, hempty⟩
      have hopens := hopening.changes
      have hopened : Undisturbed s.disk d₀ := undisturbed_of_changes hopens fun _ ↦ False.elim
      obtain ⟨hentities, hshared⟩ := Confined.preserves_copies (b := b) hdir hspelled hwords
      have hrest (d' : Disk) (h : Confined (b.folder.child (sessionName m.backupStamp k)) d₀ d') :
          Undisturbed s.disk d' := fun l n hn ↦
        undisturbed_of_changes h hempty l n (hopened l n hn)
      rw [ends_bind]
      refine (hentities _ (.refl hopens.wellFormed)).mono (fun entities t₁ h₁ ↦ ?_) fun _ _ ↦ hrest _
      rw [ends_bind]
      refine (hshared _ h₁).mono (fun shared t₂ h₂ ↦ ?_) fun _ _ ↦ hrest _
      rw [ends_bind, Run.ends_onDisk]
      refine (h₂.ends_write hspelled [manifestName] (by simp) (by decide) _).mono
        (fun _ d' h' ↦ ?_) fun _ d' ↦ hrest d'
      simp only [ends_bind, Run.ends_say, ends_pure]
      have htimestamp : (b.folder.child (sessionName m.backupStamp k)).name =
          sessionName m.backupStamp k := by
        rw [Path.name, Path.child, List.getLast?_concat]
        rfl
      rw [htimestamp]
      exact ⟨rfl, hthere, hopening.free, h'.isDir hdir, hrest d' h'⟩
    · exact undisturbed_of_changes hchanges fun _ ↦ False.elim

end BackupStore

namespace SmallProject

open BackupStore

/-- An old session and a stray file bear the first two names of the moment. -/
def crowded : Disk where
  nodes := [(["storage"], .dir), (["storage", "app"], .dir), (["storage", "app", "backups"], .dir),
    (["storage", "app", "backups", "2024-01-01_00-00-00"], .dir),
    (["storage", "app", "backups", "2024-01-01_00-00-00", "backup_manifest.json"],
      .file (Text.encode "{}")),
    (["storage", "app", "backups", "2024-01-01_00-00-00_1"], .file (Text.encode "a note"))]
  cwd := []

/-- The new session takes the third name, and the files of the others are as they were. -/
theorem create_undisturbed : ∃ m t,
    (backups.create configurations moment).run.run ⟨crowded, [], []⟩ = (.ok m, t) ∧
      m.timestamp = "2024-01-01_00-00-00_2" ∧
      t.disk.node? ["storage", "app", "backups", "2024-01-01_00-00-00", "backup_manifest.json"] =
        some (.file (Text.encode "{}")) ∧
      t.disk.node? ["storage", "app", "backups", "2024-01-01_00-00-00_1"] =
        some (.file (Text.encode "a note")) := by
  obtain ⟨memory, hbuilt⟩ := exists_memory
  have hwords := (Configuration.built accepted hbuilt).words
  obtain ⟨m, t, hrun, htimestamp⟩ := exists_run_of_passes (backups.create configurations moment)
    ⟨crowded, [], []⟩ (fun m _ ↦ m.timestamp == "2024-01-01_00-00-00_2") (by decide +kernel)
  obtain ⟨_, -, -, hends⟩ := ends_create_undisturbed backups (spelled_folder _) configurations
    hwords moment ⟨crowded, [], []⟩ (by decide)
  obtain ⟨-, -, -, -, hsame⟩ := (ends_of_run_ok hrun).1 hends
  exact ⟨m, t, hrun, beq_iff_eq.1 htimestamp, hsame _ _ rfl, hsame _ _ rfl⟩

end SmallProject

end Scaffold
