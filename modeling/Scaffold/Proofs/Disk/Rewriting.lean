import Scaffold.Proofs.Disk.Faults
import Scaffold.Proofs.Disk.Puts

/-!
# Writing over a file

A file that is there can be written safely, unless the path of the temporary file beside it is too
long: the directories are there, and nothing else is in the way. A file that was written safely can
be written safely again, as the name of the temporary file is the same.
-/

namespace Scaffold.Disk

variable {d : Disk} {p : Path} {name : String} {content : ByteArray}

theorem list_put_child {parent : Path} {q : Location} (hlocate : d.locate parent = .ok q)
    (hfree : d.node? (q ++ [name]) ≠ some .dir) :
    (d.put (q ++ [name]) (.file content)).list parent = d.list parent ∨
      (d.put (q ++ [name]) (.file content)).list parent = d.list parent ++ [name] := by
  have hname : nameIn q (q ++ [name]) = some name := by simp [nameIn]
  rw [list, list, hlocate, locate_put_file hfree hlocate]
  simp only [namesIn_eq, put, map_fst_putNode]
  split
  · exact .inl rfl
  · right
    simp [hname]

end Scaffold.Disk

namespace Scaffold.DiskOp

open Disk

variable {d : Disk} {p : Path} {slashes : Nat} {parts : List String} {name : String}
  {content : ByteArray}

/-- Nothing is made where a directory is. -/
theorem ends_makeDirs_of_isDir {good : Unit → Disk → Prop} {bad : DiskError → Disk → Prop}
    (h : d.isDir p = .ok true) : Ends (makeDirs p) d good bad ↔ good () d := by
  obtain ⟨hlocate, hdir⟩ := isDir_eq_true_iff.1 h
  have hfault := pathFault?_of_locate hlocate
  have hmissing : d.missingFrom (d.start p) p.parts = 0 := by
    rw [locate_eq_walk hfault] at hlocate
    simpa [missingFrom] using missingFrom_append hlocate hdir []
  have hshort : ¬deepest < 0 := Nat.not_lt_zero _
  have halong : Ends (makeDirsAlong p.slashes [] p.parts) d good bad ↔ good () d :=
    ends_makeDirsAlong_of_isDir h
  rw [ends_makeDirs, hfault, hmissing, halong]
  simp [hshort]

/-- A path in a directory can only fail to lead anywhere because it is too long. -/
theorem refuses_of_locate_eq_error {fault : DiskFault} (hdir : d.isDir ⟨slashes, parts⟩ = .ok true)
    (hclean : Clean ⟨slashes, parts ++ [name]⟩) (hdots : name ≠ "..")
    (h : d.locate ⟨slashes, parts ++ [name]⟩ = .error fault) :
    d.Refuses ⟨slashes, parts ++ [name]⟩ := by
  obtain ⟨hlocate, hnode⟩ := isDir_eq_true_iff.1 hdir
  rcases pathFault?_cases ⟨slashes, parts ++ [name]⟩ with hfault | hfault | hfault
  · have hstep : d.locate ⟨slashes, parts ++ [name]⟩ =
        d.walk (d.resolve ⟨slashes, parts⟩) [name] := by
      rw [locate_eq_walk (pathFault?_of_locate hlocate), start_mk _ _ _ (parts ++ [name])] at hlocate
      rw [locate_eq_walk hfault, walk_append, hlocate]
      rfl
    rw [hstep, walk_down _ _ _ hnode hdots] at h
    rw [Refuses, hstep, walk_down _ _ _ hnode hdots]
    split at h
    · next hlong => rw [if_pos hlong]
    · cases h
  · exact absurd hfault (clean_iff.1 hclean)
  · rw [Refuses, Disk.locate, hfault]

theorem ends_write_of_free (hnone : d.node? (d.resolve p) = none) :
    Ends (write p content) d (fun _ _ ↦ True) fun _ _ ↦ ∃ fault, d.locate p = .error fault := by
  refine ends_write.2 ⟨fun _ _ _ ↦ trivial, fun l hl hdir ↦ ?_, fun fault hl ↦ ⟨fault, hl⟩⟩
  rw [locate_eq_resolve hl, hnone] at hdir
  cases hdir

/-- A file is written over, unless the path of the temporary file beside it is too long. -/
theorem ends_writeFile_of_isFile (hwf : d.WellFormed)
    (hspelled : Path.Spelled ⟨slashes, parts ++ [name]⟩)
    (hfile : d.isFile ⟨slashes, parts ++ [name]⟩ = .ok true) :
    Ends (writeFile ⟨slashes, parts ++ [name]⟩ content true) d (fun _ _ ↦ True)
      fun _ _ ↦ d.Refuses (freshBeside d ⟨slashes, parts ++ [name]⟩) := by
  obtain ⟨n, hlocate, hn, hnot⟩ := node?_of_holds hfile
  have hdir : d.isDir ⟨slashes, parts⟩ = .ok true := isDir_of_locate hlocate (by simp)
  have hclean := Clean.freshBeside (Clean.of_pathFault? (pathFault?_of_locate hlocate)) d
  obtain ⟨temp, hfresh, hslash, -, hdots, hnone⟩ := freshBeside_spec d hdir (hspelled name (by simp))
  rw [hfresh] at hclean ⊢
  rw [← resolve_append _ _ _ (by simpa using hdots.symm)] at hnone
  have hspelled' : Path.Spelled ⟨slashes, parts ++ [temp]⟩ := fun part hpart ↦ by
    rcases List.mem_append.1 hpart with hpart | hpart
    · exact hspelled part (List.mem_append_left _ hpart)
    · rwa [List.mem_singleton.1 hpart]
  have hparent : Path.parent ⟨slashes, parts ++ [name]⟩ = ⟨slashes, parts⟩ := by
    rw [Path.parent, List.dropLast_concat]
  rw [writeFile, if_pos rfl, writeSafely, ends_bind, hparent, ends_makeDirs_of_isDir hdir, ends_bind,
    ends_get, ends_bind, hfresh]
  apply ((changes_write hwf hspelled').and (ends_write_of_free hnone)).mono
  case hbad =>
    rintro _ _ ⟨-, fault, hfault⟩
    exact refuses_of_locate_eq_error hdir hclean hdots hfault
  rintro _ d₁ ⟨⟨h₁, htemp, hthere⟩, -⟩
  -- The temporary file stands somewhere else, so the file is still there to be written over.
  have hne : d.resolve ⟨slashes, parts ++ [name]⟩ ≠ d.resolve ⟨slashes, parts ++ [temp]⟩ := by
    intro heq
    rw [heq, hnone] at hn
    cases hn
  rw [ends_tryCatch, ends_moveFile htemp (file?_eq_some_iff.1 hthere)]
  refine ⟨fun _ _ _ ↦ trivial, fun place hplace hstands ↦ ?_, fun fault hfault ↦ ?_⟩
  · rw [locate_eq_resolve hplace, h₁.resolve_eq] at hstands
    cases n with
    | dir => exact absurd hnot (by decide)
    | file old =>
      rw [← file?_eq_some_iff, ← h₁.same _ hne, file?_eq_some_iff, hstands] at hn
      cases hn
  · rw [h₁.locate_eq_ok hlocate] at hfault
    cases hfault

/-! ## Writing again -/

/-- A file in a directory does not count for the names of the temporary files beside it. -/
theorem freshBeside_congr {d' : Disk}
    (h : d'.list p.parent = d.list p.parent ∨ d'.list p.parent = d.list p.parent ++ [p.name]) :
    freshBeside d' p = freshBeside d p := by
  rcases h with h | h
  · rw [freshBeside, freshBeside, h]
  · have hne (k : Nat) : tempName p.name k ≠ p.name := fun heq ↦ by
      have := length_lt_length_tempName p.name k
      rw [heq] at this
      omega
    have hused (k : Nat) : (d.list p.parent ++ [p.name]).contains (tempName p.name k) =
        (d.list p.parent).contains (tempName p.name k) := by
      simp [hne]
    obtain ⟨k, hk, -⟩ := exists_find?_range (tempName_injective p.name) (d.list p.parent)
    simp only [freshBeside, h, hused]
    rw [List.length_append, List.length_singleton, List.range_succ, List.find?_append, hk,
      Option.some_or]

/-- After a safe write there is room for the next one. -/
theorem ends_writeFile_ready (hwf : d.WellFormed)
    (hspelled : Path.Spelled ⟨slashes, parts ++ [name]⟩) (hdots : name ≠ "..") :
    Ends (writeFile ⟨slashes, parts ++ [name]⟩ content true) d
      (fun _ d' ↦ ¬d'.Refuses (freshBeside d' ⟨slashes, parts ++ [name]⟩)) fun _ _ ↦ True := by
  have hspelled' : Path.Spelled ⟨slashes, parts⟩ := fun part hpart ↦
    hspelled part (List.mem_append_left _ hpart)
  have hparent : Path.parent ⟨slashes, parts ++ [name]⟩ = ⟨slashes, parts⟩ := by
    rw [Path.parent, List.dropLast_concat]
  have hlast : Path.name ⟨slashes, parts ++ [name]⟩ = name := by simp [Path.name]
  have hmade : Ends (makeDirs ⟨slashes, parts⟩) d
      (fun _ d' ↦ Changes (fun _ ↦ True) nowhere d d') fun _ d' ↦ Changes (fun _ ↦ True) nowhere d d' :=
    changes_makeDirs hwf hspelled' fun _ _ _ ↦ trivial
  rw [writeFile, if_pos rfl, writeSafely, ends_bind, hparent]
  refine (hmade.and (isDir_of_makeDirs hwf hspelled')).mono ?_ fun _ _ _ ↦ trivial
  rintro _ d₁ ⟨h₁, hdir⟩
  obtain ⟨temp, hfresh, -, -, htemp, hnone⟩ := freshBeside_spec d₁ hdir (hspelled name (by simp))
  obtain ⟨hlocate, hstands⟩ := isDir_eq_true_iff.1 hdir
  rw [← resolve_append _ _ _ (by simpa using htemp.symm)] at hnone
  rw [ends_bind, ends_get, ends_bind, hfresh, ends_write]
  refine ⟨fun l hl _ ↦ ?_, fun _ _ _ ↦ trivial, fun _ _ ↦ trivial⟩
  obtain rfl := locate_eq_resolve hl
  rw [ends_moveOrRemove hl hnone]
  refine ⟨fun place hplace hnot ↦ ?_, fun _ _ _ ↦ trivial, fun _ _ ↦ trivial⟩
  have hplace' : place = d₁.resolve ⟨slashes, parts⟩ ++ [name] := by
    rw [locate_eq_resolve hplace, resolve_append _ _ _ (by simpa using hdots.symm)]
    rfl
  have hnot' : d₁.node? place ≠ some .dir := by
    intro hdir
    rw [node?_put _ _ _ (by rintro hroot; rw [hroot] at hnone; cases hnone)] at hnot
    split at hnot
    · next heq => rw [← heq, hdir] at hnone; cases hnone
    · exact hnot hdir
  have hlist : (d₁.put place (.file content)).list ⟨slashes, parts⟩ = d₁.list ⟨slashes, parts⟩ ∨
      (d₁.put place (.file content)).list ⟨slashes, parts⟩ =
        d₁.list ⟨slashes, parts⟩ ++ [name] := by
    rw [hplace'] at hnot' ⊢
    exact list_put_child hlocate hnot'
  rw [freshBeside_congr (d := d₁) (by rwa [hparent, hlast]), hfresh, Refuses,
    locate_put_file hnot' hl]
  simp

end Scaffold.DiskOp
