import Scaffold.Proofs.Disk.SafeWriting

/-!
# Growing disks

Writing takes nothing away: where something stood before, something stands afterwards, and a path
that led there still does.
-/

namespace Scaffold

namespace Disk

variable {d d' d'' : Disk} {p : Path} {l : Location} {dirs files dirs' files' : Location → Prop}

theorem isThere_eq_true_iff :
    d.isThere p = .ok true ↔ d.locate p = .ok (d.resolve p) ∧ (d.node? (d.resolve p)).isSome := by
  constructor
  · intro h
    obtain ⟨n, hlocate, hn, -⟩ := node?_of_holds h
    exact ⟨hlocate, by rw [hn]; rfl⟩
  · rintro ⟨hlocate, hsome⟩
    obtain ⟨n, hn⟩ := Option.isSome_iff_exists.1 hsome
    simp [isThere, holds, nodeAt, hlocate, hn]

/-- The disk has changed, and no file is gone. -/
structure Grows (dirs files : Location → Prop) (d d' : Disk) : Prop extends
    Changes dirs files d d' where
  stays : ∀ l, (d.file? l).isSome → (d'.file? l).isSome

/-- A change that leaves a file wherever it changes one. -/
theorem Changes.grows (h : Changes dirs files d d') (hfiles : ∀ l, files l → (d'.file? l).isSome) :
    Grows dirs files d d' where
  toChanges := h
  stays l hl := by
    by_cases hfile : files l
    · exact hfiles l hfile
    · rwa [h.same l hfile]

namespace Grows

theorem refl (hwf : d.WellFormed) : Grows dirs files d d := ⟨.refl hwf, fun _ ↦ id⟩

theorem trans (h : Grows dirs files d d') (h' : Grows dirs files d' d'') : Grows dirs files d d'' :=
  ⟨h.toChanges.trans h'.toChanges, fun l hl ↦ h'.stays l (h.stays l hl)⟩

theorem mono (h : Grows dirs files d d') (hdirs : ∀ l, dirs l → dirs' l)
    (hfiles : ∀ l, files l → files' l) : Grows dirs' files' d d' :=
  ⟨h.toChanges.mono hdirs hfiles, h.stays⟩

theorem isSome (h : Grows dirs files d d') (hl : (d.node? l).isSome) : (d'.node? l).isSome := by
  obtain ⟨n, hn⟩ := Option.isSome_iff_exists.1 hl
  cases n with
  | dir => rw [h.keeps l hn, Option.isSome_some]
  | file content =>
    obtain ⟨content', hcontent'⟩ := Option.isSome_iff_exists.1
      (h.stays l (by rw [file?_eq_some_iff.2 hn]; rfl))
    rw [file?_eq_some_iff.1 hcontent', Option.isSome_some]

/-- What was found is found. -/
theorem isThere (h : Grows dirs files d d') (hp : d.isThere p = .ok true) :
    d'.isThere p = .ok true := by
  obtain ⟨hlocate, hsome⟩ := isThere_eq_true_iff.1 hp
  refine isThere_eq_true_iff.2 ⟨?_, ?_⟩
  · rw [h.resolve_eq]
    exact h.locate_eq_ok hlocate
  · rw [h.resolve_eq]
    exact h.isSome hsome

/-- What stands at a location where neither a file changes nor a directory comes stood there. -/
theorem isSome_iff (h : Grows dirs files d d') (hdirs : ¬dirs l) (hfiles : ¬files l) :
    (d'.node? l).isSome ↔ (d.node? l).isSome := by
  refine ⟨fun hl ↦ ?_, h.isSome⟩
  obtain ⟨n, hn⟩ := Option.isSome_iff_exists.1 hl
  cases n with
  | dir =>
    rw [(h.comes l hn).resolve_right hdirs]
    rfl
  | file content =>
    rw [← file?_eq_some_iff, h.same l hfiles, file?_eq_some_iff] at hn
    rw [hn]
    rfl

end Grows

end Disk

namespace DiskOp

open Disk

variable {d : Disk} {dirs : Location → Prop} {slashes : Nat} {parts : List String} {name : String}
  {content : ByteArray}

/-- A file that was written has a path that can be used. -/
theorem pathFault?_of_writeFile {p : Path} :
    Ends (writeFile p content true) d (fun _ _ ↦ pathFault? p = none) fun _ _ ↦ True := by
  have hmove (source : Path) (d' : Disk) :
      Ends (moveFile source p) d' (fun _ _ ↦ pathFault? p = none) fun _ _ ↦ True := by
    rw [moveFile, ends_bind, ends_locate]
    refine ⟨fun start _ ↦ ?_, fun _ _ ↦ trivial⟩
    rw [ends_bind, ends_locate]
    refine ⟨fun place hplace ↦ ?_, fun _ _ ↦ trivial⟩
    rw [ends_bind, ends_get]
    rcases d'.node? place with - | ⟨-⟩ | c <;> rcases d'.node? start with - | n <;>
      simp [pathFault?_of_locate hplace]
  rw [writeFile, if_pos rfl, writeSafely, ends_bind]
  refine (ends_any _ _).mono (fun _ d₁ _ ↦ ?_) fun _ _ ↦ id
  rw [ends_bind, ends_get, ends_bind]
  refine (ends_any _ _).mono (fun _ d₂ _ ↦ ?_) fun _ _ ↦ id
  rw [ends_tryCatch]
  refine (hmove _ _).mono (fun _ _ ↦ id) fun e d₃ _ ↦ ?_
  rw [ends_bind]
  exact (ends_any _ _).mono (fun _ _ _ ↦ (ends_throw e).2 trivial) fun _ _ ↦ id

/-- A file that is written safely is found at its path, and nothing is gone. -/
theorem grows_writeFile (hwf : d.WellFormed) (hspelled : Path.Spelled ⟨slashes, parts ++ [name]⟩)
    (hparent : Ends (makeDirs ⟨slashes, parts⟩) d (fun _ d' ↦ Changes dirs nowhere d d')
      fun _ d' ↦ Changes dirs nowhere d d') :
    Ends (writeFile ⟨slashes, parts ++ [name]⟩ content true) d
      (fun _ d' ↦ Grows dirs (· = d.resolve ⟨slashes, parts ++ [name]⟩) d d' ∧
        d'.locate ⟨slashes, parts ++ [name]⟩ = .ok (d.resolve ⟨slashes, parts ++ [name]⟩) ∧
          d'.file? (d.resolve ⟨slashes, parts ++ [name]⟩) = some content)
      fun _ d' ↦ Grows dirs nowhere d d' := by
  rw [writeFile, if_pos rfl]
  refine (changes_writeSafely hwf hspelled hparent).mono ?_ fun _ _ h ↦ h.grows fun _ ↦ False.elim
  rintro _ d' ⟨h, hlocate, hfile⟩
  refine ⟨h.grows ?_, hlocate, hfile⟩
  rintro _ rfl
  rw [hfile]
  rfl

end DiskOp

end Scaffold
