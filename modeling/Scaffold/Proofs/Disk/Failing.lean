import Scaffold.Proofs.Disk.Rewriting

/-!
# Writes that fail

A write can fail before the temporary file is there: a directory cannot be made, or the temporary
file cannot be written. It can also fail afterwards, when the temporary file cannot be moved into
place; then the file is removed again. In all of these cases no file has changed, none has come and
none has gone. This holds on every disk, well-formed or not.
-/

namespace Scaffold.Disk

variable {d d' d'' : Disk} {p : Path} {l : Location} {n : Node}

/-- Every file is as it was, no other file has come, and no directory has gone. -/
structure KeepsFiles (d d' : Disk) : Prop where
  cwd : d'.cwd = d.cwd
  files : ∀ l, d'.file? l = d.file? l
  dirs : ∀ l, d.node? l = some .dir → d'.node? l = some .dir

namespace KeepsFiles

theorem refl (d : Disk) : KeepsFiles d d where
  cwd := rfl
  files _ := rfl
  dirs _ hl := hl

theorem trans (h : KeepsFiles d d') (h' : KeepsFiles d' d'') : KeepsFiles d d'' where
  cwd := h'.cwd.trans h.cwd
  files l := (h'.files l).trans (h.files l)
  dirs l hl := h'.dirs l (h.dirs l hl)

/-- A directory that comes where nothing stood is no file. -/
theorem put_dir (h : d.node? l = none) : KeepsFiles d (d.put l .dir) := by
  have hl : l ≠ [] := by
    rintro rfl
    cases h
  constructor
  · rfl
  · intro x
    by_cases hx : x = l
    · subst hx
      have hbefore : d.file? x = none := file?_eq_none_iff.2 (.inl h)
      have hafter : (d.put x .dir).file? x = none := by
        apply file?_eq_none_iff.2
        right
        rw [node?_put _ _ _ hl, if_pos rfl]
      rw [hbefore, hafter]
    · apply file?_congr
      rw [node?_put _ _ _ hl, if_neg hx]
  · intro x hx
    rw [node?_put _ _ _ hl]
    split
    · rfl
    · exact hx

end KeepsFiles

end Scaffold.Disk

namespace Scaffold.DiskOp

open Disk

variable {d : Disk} {p : Path} {l : Location} {content : ByteArray} {slashes : Nat}

/-! ## Making directories -/

theorem keepsFiles_makeDir (p : Path) (d : Disk) :
    Ends (makeDir p) d (fun _ d' ↦ KeepsFiles d d') fun _ d' ↦ KeepsFiles d d' := by
  apply ends_makeDir.2
  exact ⟨fun _ _ hnone ↦ .put_dir hnone, fun _ _ _ ↦ .refl d, fun _ _ ↦ .refl d⟩

theorem keepsFiles_makeDirsAlong (slashes : Nat) (rest done : List String) (d : Disk) :
    Ends (makeDirsAlong slashes done rest) d (fun _ d' ↦ KeepsFiles d d')
      fun _ d' ↦ KeepsFiles d d' := by
  induction rest generalizing done d with
  | nil => exact (ends_pure _).2 (.refl d)
  | cons part rest ih =>
    have hstep (d₁ : Disk) (h : KeepsFiles d d₁) :
        Ends (makeDirsAlong slashes (done ++ [part]) rest) d₁ (fun _ d' ↦ KeepsFiles d d')
          fun _ d' ↦ KeepsFiles d d' :=
      (ih (done ++ [part]) d₁).mono (fun _ _ ↦ h.trans) fun _ _ ↦ h.trans
    rw [makeDirsAlong, ends_bind, ends_ask]
    constructor
    · intro there _
      cases there with
      | true => simpa using hstep d (.refl d)
      | false =>
        simp only [Bool.not_false, if_true]
        apply (keepsFiles_makeDir _ d).bind
        intro _ d₁ h₁
        exact hstep d₁ h₁
    · intro _ _
      exact .refl d

theorem keepsFiles_makeDirs (p : Path) (d : Disk) :
    Ends (makeDirs p) d (fun _ d' ↦ KeepsFiles d d') fun _ d' ↦ KeepsFiles d d' := by
  apply ends_makeDirs.2
  refine ⟨fun _ _ ↦ .refl d, fun _ _ ↦ .refl d, fun _ _ ↦ ?_⟩
  exact keepsFiles_makeDirsAlong _ _ _ d

/-! ## Writing -/

/-- Nothing stands at the location of the temporary file, if its path leads to one at all. -/
theorem node?_freshBeside (h : d.locate (freshBeside d p) = .ok l) : d.node? l = none := by
  obtain ⟨k, hk, hfree⟩ := exists_find?_range (tempName_injective p.name) (d.list p.parent)
  have hfresh : freshBeside d p = p.parent.child (tempName p.name k) := by
    simp only [freshBeside, hk, Option.getD_some]
  have hdots : ".." ∉ [tempName p.name k] := by
    rw [List.mem_singleton]
    intro heq
    have hlength := length_lt_length_tempName p.name k
    have htwo : "..".length = 2 := by decide
    rw [← heq, htwo] at hlength
    omega
  rw [hfresh] at h
  obtain ⟨hparent, -⟩ := isDir_eq_true_iff.1 (isDir_of_locate h (by simp))
  have hplace : l = d.resolve p.parent ++ [tempName p.name k] := by
    rw [locate_eq_resolve h]
    exact resolve_append d _ _ hdots
  have hlist : d.list p.parent = d.namesIn (d.resolve p.parent) := by
    rw [list, show d.locate p.parent = .ok (d.resolve p.parent) from hparent]
  rw [hlist, mem_namesIn, ← hplace, Option.not_isSome_iff_eq_none] at hfree
  exact hfree

theorem keepsFiles_writeSafely (p : Path) (content : ByteArray) (d : Disk) :
    Ends (writeSafely p content) d (fun _ _ ↦ True) fun _ d' ↦ KeepsFiles d d' := by
  unfold writeSafely
  apply (keepsFiles_makeDirs p.parent d).bind
  intro _ d₁ h₁
  rw [ends_bind, ends_get, ends_bind, ends_write]
  refine ⟨fun l hl _ ↦ ?_, fun _ _ _ ↦ h₁, fun _ _ ↦ h₁⟩
  rw [ends_moveOrRemove hl (node?_freshBeside hl)]
  exact ⟨fun _ _ _ ↦ trivial, fun _ _ _ ↦ h₁, fun _ _ ↦ h₁⟩

/-- A write that fails leaves every file as it was, and no temporary file behind. -/
theorem keepsFiles_writeFile (p : Path) (content : ByteArray) (safely : Bool) (d : Disk) :
    Ends (writeFile p content safely) d (fun _ _ ↦ True) fun _ d' ↦ KeepsFiles d d' := by
  unfold writeFile
  cases safely with
  | true => exact keepsFiles_writeSafely p content d
  | false =>
    apply (keepsFiles_makeDirs p.parent d).bind
    intro _ d₁ h₁
    exact ends_write.2 ⟨fun _ _ _ ↦ trivial, fun _ _ _ ↦ h₁, fun _ _ ↦ h₁⟩

end Scaffold.DiskOp
