import Scaffold.Run.Failure
import Scaffold.Proofs.Disk.SafeWriting

/-!
# How operations fail

A part of a run survives most faults of the disk. It does not survive a path with a NUL in it, and
not a request for more missing directories than can be made at once. Other than that operations fail
plainly.
-/

namespace Scaffold

/-- The fault is one that parts of a run survive. -/
def DiskFault.IsPlain (fault : DiskFault) : Prop := fault ≠ .nul ∧ fault ≠ .tooDeep

theorem Failure.isDiskFailure_disk {e : DiskError} :
    (Failure.disk e).isDiskFailure = true ↔ e.fault.IsPlain := by
  obtain ⟨fault, p⟩ := e
  cases fault <;> simp [isDiskFailure, level, DiskFault.IsPlain]

namespace Disk

variable {d : Disk} {p : Path} {fault : DiskFault} {e : DiskError}

/-- No name of the path holds a NUL. -/
def Clean (p : Path) : Prop := ∀ part ∈ p.parts, '\x00' ∉ part.toList

theorem clean_iff : Clean p ↔ pathFault? p ≠ some .nul := by
  rw [ne_eq, pathFault?_eq_nul_iff]
  simp [Clean]

theorem Clean.of_pathFault? (h : pathFault? p = none) : Clean p := by
  rw [clean_iff, h]
  simp

theorem Clean.locate (h : Clean p) (hlocate : d.locate p = .error fault) : fault.IsPlain := by
  rw [Disk.locate] at hlocate
  rcases pathFault?_cases p with hfault | hfault | hfault
  · rw [hfault] at hlocate
    rcases walk_fault hlocate with rfl | rfl | rfl <;> simp [DiskFault.IsPlain]
  · exact absurd hfault (clean_iff.1 h)
  · rw [hfault] at hlocate
    obtain rfl := Except.error.inj hlocate
    simp [DiskFault.IsPlain]

theorem Clean.nodeAt (h : Clean p) (hnode : d.nodeAt p = .error e) : e.fault.IsPlain := by
  rw [Disk.nodeAt] at hnode
  split at hnode
  · next hlocate =>
    obtain rfl := Except.error.inj hnode
    exact h.locate hlocate
  · split at hnode
    · obtain rfl := Except.error.inj hnode
      simp [DiskFault.IsPlain]
    · cases hnode

theorem Clean.readBytes (h : Clean p) (hread : d.readBytes p = .error e) : e.fault.IsPlain := by
  rw [Disk.readBytes] at hread
  split at hread
  · next hnode =>
    obtain rfl := Except.error.inj hread
    exact h.nodeAt hnode
  · obtain rfl := Except.error.inj hread
    simp [DiskFault.IsPlain]
  · cases hread

/-- A question about what stands at a path can only be refused because of a length. -/
theorem refuses_of_holds {test : Node → Bool} (h : d.holds p test = .error e) :
    d.Refuses p ∧ e = ⟨.nameTooLong, p⟩ := by
  rw [holds] at h
  split at h
  · cases h
  · next e' hnode =>
    split at h
    · cases h
    · next hfault =>
      obtain rfl := Except.error.inj h
      rw [Disk.nodeAt] at hnode
      split at hnode
      · next fault hlocate =>
        obtain rfl := Except.error.inj hnode
        suffices hlong : fault = .nameTooLong by
          subst hlong
          exact ⟨hlocate, rfl⟩
        rw [Disk.locate] at hlocate
        rcases pathFault?_cases p with hpath | hpath | hpath
        · rw [hpath] at hlocate
          rcases walk_fault hlocate with rfl | rfl | rfl <;> simp_all
        · rw [hpath] at hlocate
          obtain rfl := Except.error.inj hlocate
          simp at hfault
        · rw [hpath] at hlocate
          exact (Except.error.inj hlocate).symm
      · split at hnode
        · obtain rfl := Except.error.inj hnode
          simp at hfault
        · cases hnode

theorem isPlain_of_holds {test : Node → Bool} (h : d.holds p test = .error e) : e.fault.IsPlain := by
  rw [(refuses_of_holds h).2]
  simp [DiskFault.IsPlain]

theorem exists_isTooLong_of_walk {place : Location} {parts : List String}
    (h : d.walk place parts = .error .nameTooLong) : ∃ part ∈ parts, isTooLong part = true := by
  induction parts generalizing place with
  | nil => cases h
  | cons part rest ih =>
    rw [walk] at h
    split at h
    · cases h
    · cases h
    · split at h
      · obtain ⟨x, hx, hlong⟩ := ih h
        exact ⟨x, List.mem_cons_of_mem _ hx, hlong⟩
      · split at h
        · next hlong => exact ⟨part, List.mem_cons_self, hlong⟩
        · obtain ⟨x, hx, hlong⟩ := ih h
          exact ⟨x, List.mem_cons_of_mem _ hx, hlong⟩

/-- A path of which nothing is too long is never refused. -/
theorem not_refuses_of_short (hfault : pathFault? p = none)
    (hshort : ∀ part ∈ p.parts, isTooLong part = false) : ¬d.Refuses p := by
  intro hrefuses
  rw [Refuses, locate_eq_walk hfault] at hrefuses
  obtain ⟨part, hpart, hlong⟩ := exists_isTooLong_of_walk hrefuses
  rw [hshort part hpart] at hlong
  cases hlong

end Disk

namespace DiskOp

open Disk

variable {α β : Type} {d : Disk} {p source target : Path} {content : ByteArray}

/-- The operation fails in plain ways only. -/
def FailsPlainly (op : DiskOp α) (d : Disk) : Prop :=
  Ends op d (fun _ _ ↦ True) fun e _ ↦ e.fault.IsPlain

theorem failsPlainly_bind {op : DiskOp α} {next : α → DiskOp β} (h : FailsPlainly op d)
    (hnext : ∀ a d', FailsPlainly (next a) d') : FailsPlainly (op >>= next) d := by
  rw [FailsPlainly, ends_bind]
  exact Ends.mono h (fun a d' _ ↦ hnext a d') fun _ _ ↦ id

theorem failsPlainly_ask {query : Disk → Except DiskError α}
    (h : ∀ e, query d = .error e → e.fault.IsPlain) : FailsPlainly (ask query) d :=
  (ends_ask query).2 ⟨fun _ _ ↦ trivial, h⟩

theorem failsPlainly_write (h : Clean p) : FailsPlainly (write p content) d :=
  ends_write.2 ⟨fun _ _ _ ↦ trivial, fun _ _ _ ↦ by simp [DiskFault.IsPlain],
    fun _ hlocate ↦ h.locate hlocate⟩

theorem failsPlainly_remove (h : Clean p) : FailsPlainly (remove p) d :=
  ends_remove.2 ⟨fun _ _ _ _ ↦ trivial, fun _ _ _ ↦ by simp [DiskFault.IsPlain],
    fun _ _ _ ↦ by simp [DiskFault.IsPlain], fun _ hlocate ↦ h.locate hlocate⟩

theorem failsPlainly_makeDir (h : Clean p) : FailsPlainly (makeDir p) d :=
  ends_makeDir.2 ⟨fun _ _ _ ↦ trivial, fun _ _ _ ↦ by simp [DiskFault.IsPlain],
    fun _ hlocate ↦ h.locate hlocate⟩

theorem failsPlainly_moveFile (hsource : Clean source) (htarget : Clean target) :
    FailsPlainly (moveFile source target) d := by
  rw [FailsPlainly, moveFile, ends_bind, ends_locate]
  refine ⟨fun start _ ↦ ?_, fun _ hlocate ↦ hsource.locate hlocate⟩
  rw [ends_bind, ends_locate]
  refine ⟨fun place _ ↦ ?_, fun _ hlocate ↦ htarget.locate hlocate⟩
  rw [ends_bind, ends_get]
  rcases d.node? place with - | ⟨-⟩ | c <;> rcases d.node? start with - | n <;>
    simp [DiskFault.IsPlain]

theorem failsPlainly_makeDirsAlong {slashes : Nat} {done rest : List String}
    (h : Clean ⟨slashes, done ++ rest⟩) : FailsPlainly (makeDirsAlong slashes done rest) d := by
  induction rest generalizing done d with
  | nil => exact (ends_pure _).2 trivial
  | cons part rest ih =>
    rw [← List.singleton_append, ← List.append_assoc] at h
    refine failsPlainly_bind (failsPlainly_ask fun e he ↦ isPlain_of_holds he) fun there d' ↦ ?_
    have hstep (d' : Disk) : FailsPlainly (makeDirsAlong slashes (done ++ [part]) rest) d' := ih h
    cases there with
    | true => exact hstep d'
    | false =>
      refine failsPlainly_bind (failsPlainly_makeDir fun x hx ↦ ?_) fun _ d' ↦ hstep d'
      exact h x (List.mem_append_left _ hx)

/-- Missing directories are made or refused plainly, if there are not too many of them. -/
theorem failsPlainly_makeDirs (h : Clean p)
    (hdeep : d.missingFrom (d.start p) p.parts ≤ deepest) : FailsPlainly (makeDirs p) d := by
  refine ends_makeDirs.2 ⟨fun fault hfault ↦ ?_, fun _ hlong ↦ absurd hdeep (by omega), fun _ _ ↦ ?_⟩
  · rcases pathFault?_cases p with hp | hp | hp
    · rw [hp] at hfault
      cases hfault
    · exact absurd hp (clean_iff.1 h)
    · rw [hp] at hfault
      cases hfault
      simp [DiskFault.IsPlain]
  · exact failsPlainly_makeDirsAlong h

theorem Clean.parent {p : Path} (h : Clean p) : Clean p.parent := fun part hpart ↦
  h part (List.dropLast_subset _ hpart)

theorem Clean.freshBeside {p : Path} (h : Clean p) (d : Disk) : Clean (freshBeside d p) := by
  intro part hpart
  rcases List.mem_append.1 hpart with hpart | hpart
  · exact Clean.parent h part hpart
  · rw [List.mem_singleton.1 hpart]
    refine not_mem_tempName ?_ (.inr rfl) _
    rw [Path.name]
    rcases hlast : p.parts.getLast? with - | name
    · simp
    · exact h name (List.mem_of_getLast? hlast)

/-- A file is written or refused plainly, if not too many directories are missing. -/
theorem failsPlainly_writeFile (h : Clean p)
    (hdeep : d.missingFrom (d.start p) p.parts.dropLast ≤ deepest) :
    FailsPlainly (writeFile p content true) d := by
  rw [writeFile, if_pos rfl]
  refine failsPlainly_bind (failsPlainly_makeDirs (Clean.parent h) hdeep) fun _ d₁ ↦ ?_
  rw [FailsPlainly, ends_bind, ends_get, ends_bind]
  have htemp := Clean.freshBeside h d₁
  refine Ends.mono (failsPlainly_write htemp) (fun _ d₂ _ ↦ ?_) fun _ _ ↦ id
  rw [ends_tryCatch]
  refine Ends.mono (failsPlainly_moveFile htemp h) (fun _ _ ↦ id) fun e d₃ he ↦ ?_
  rw [ends_bind]
  exact Ends.mono (failsPlainly_remove htemp) (fun _ _ _ ↦ (ends_throw e).2 he) fun _ _ ↦ id

/-- A path without NULs that has not too many components. -/
structure Usable (p : Path) : Prop where
  clean : Clean p
  short : p.parts.length ≤ deepest

theorem Usable.failsPlainly_writeFile (h : Usable p) :
    FailsPlainly (writeFile p content true) d := by
  refine DiskOp.failsPlainly_writeFile h.clean ((missingFrom_le_length _ _ _).trans ?_)
  rw [List.length_dropLast]
  exact (Nat.sub_le _ _).trans h.short

theorem failsPlainly_copyFile (hsource : Clean source) (htarget : Clean target)
    (hdeep : d.missingFrom (d.start target) target.parts.dropLast ≤ deepest) :
    FailsPlainly (copyFile source target) d := by
  refine failsPlainly_bind (failsPlainly_makeDirs (Clean.parent htarget) hdeep) fun _ d₁ ↦ ?_
  refine ends_copyOnto_of fun q hq ↦ ⟨fun _ ↦ by simp [DiskFault.IsPlain], ?_⟩
  have hclean : Clean q := by
    rcases hq with ⟨rfl, -⟩ | ⟨rfl, -⟩
    · exact htarget
    · intro part hpart
      rcases Path.mem_parts_child_name hpart with hpart | hpart | rfl
      · exact htarget part hpart
      · exact hsource part hpart
      · simp
  exact failsPlainly_bind (failsPlainly_ask fun e he ↦ hsource.readBytes he) fun _ _ ↦
    failsPlainly_write hclean

end DiskOp

end Scaffold
