import Scaffold.Run.Input
import Scaffold.Stub.Source
import Scaffold.Proofs.Run.Rules

/-!
# Parts of a run that only read

Such a part may write into the log, but it leaves the disk alone and asks nothing, and what it gives
depends on the disk and on nothing else.
-/

namespace Scaffold.Run

variable {α β ε : Type}

/-- What a part of a run gives on a disk. -/
def resultOn (x : Run α) (d : Disk) : Except Failure α := (x.run.run ⟨d, [], []⟩).1

/-- The part of a run only reads. -/
def Reads (x : Run α) : Prop :=
  ∃ f : Disk → Except Failure α, ∀ s, Ends x s
    (fun a t ↦ f s.disk = .ok a ∧ ∃ log, t = { s with log })
    fun e t ↦ f s.disk = .error e ∧ ∃ log, t = { s with log }

/-- A part that only reads ends as its result on the disk says. -/
theorem Reads.ends {x : Run α} (h : Reads x) {s : Scene} {good : α → Scene → Prop}
    {bad : Failure → Scene → Prop}
    (hgood : ∀ a log, x.resultOn s.disk = .ok a → good a { s with log })
    (hbad : ∀ e log, x.resultOn s.disk = .error e → bad e { s with log }) : Ends x s good bad := by
  obtain ⟨f, hf⟩ := h
  have hresult : x.resultOn s.disk = f s.disk := by
    have hon := hf ⟨s.disk, [], []⟩
    rcases run_ok_or_error x ⟨s.disk, [], []⟩ with ⟨a, t, hx⟩ | ⟨e, t, hx⟩
    · rw [resultOn, hx]
      exact ((ends_of_run_ok hx).1 hon).1.symm
    · rw [resultOn, hx]
      exact ((ends_of_run_error hx).1 hon).1.symm
  refine (hf s).mono ?_ ?_
  · rintro a _ ⟨ha, log, rfl⟩
    exact hgood a log (hresult.trans ha)
  · rintro e _ ⟨he, log, rfl⟩
    exact hbad e log (hresult.trans he)

/-- The result on a disk is how the part ends there. -/
theorem of_ends_resultOn {x : Run α} {d : Disk} {P : Except Failure α → Prop}
    (h : Ends x ⟨d, [], []⟩ (fun a _ ↦ P (.ok a)) fun e _ ↦ P (.error e)) : P (x.resultOn d) := by
  rcases run_ok_or_error x ⟨d, [], []⟩ with ⟨a, t, hx⟩ | ⟨e, t, hx⟩
  · rw [resultOn, hx]
    exact (ends_of_run_ok hx).1 h
  · rw [resultOn, hx]
    exact (ends_of_run_error hx).1 h

/-! ## Rules -/

theorem reads_pure (a : α) : Reads (pure a : Run α) :=
  ⟨fun _ ↦ .ok a, fun s ↦ (ends_pure a).2 ⟨rfl, s.log, rfl⟩⟩

theorem reads_throw (e : Failure) : Reads (throw e : Run α) :=
  ⟨fun _ ↦ .error e, fun s ↦ (ends_throw e).2 ⟨rfl, s.log, rfl⟩⟩

theorem reads_say (line : LogLine) : Reads (say line) :=
  ⟨fun _ ↦ .ok (), fun _ ↦ (ends_say line).2 ⟨rfl, _, rfl⟩⟩

theorem reads_query (question : Disk → Except DiskError α) : Reads (query question) :=
  ⟨fun d ↦ (question d).mapError .disk, fun s ↦ (ends_query question).2
    ⟨fun a ha ↦ ⟨by simp only [ha]; rfl, s.log, rfl⟩, fun e he ↦ ⟨by simp only [he]; rfl, s.log, rfl⟩⟩⟩

theorem reads_readText (p : Path) : Reads (readText p) :=
  ⟨fun d ↦ (d.readText p).mapError fun | .disk e => .disk e | .notText e => .undecodable e,
    fun s ↦ (ends_readText p).2 ⟨fun a ha ↦ ⟨by simp only [ha]; rfl, s.log, rfl⟩,
      fun e he ↦ ⟨by simp only [he]; rfl, s.log, rfl⟩, fun e he ↦ ⟨by simp only [he]; rfl, s.log, rfl⟩⟩⟩

theorem reads_bind {x : Run α} {next : α → Run β} (hx : Reads x) (hnext : ∀ a, Reads (next a)) :
    Reads (x >>= next) := by
  obtain ⟨f, hf⟩ := hx
  choose g hg using hnext
  refine ⟨fun d ↦ (f d).bind fun a ↦ g a d, fun s ↦ ?_⟩
  rw [ends_bind]
  refine (hf s).mono ?_ ?_
  · rintro a _ ⟨ha, log, rfl⟩
    simp only [ha]
    exact hg a _
  · rintro e _ ⟨he, hlog⟩
    simp only [he]
    exact ⟨rfl, hlog⟩

theorem reads_attempt {x : Run α} (survives : Failure → Bool) (h : Reads x) :
    Reads (attempt survives x) := by
  obtain ⟨f, hf⟩ := h
  refine ⟨fun d ↦ match f d with
    | .ok a => .ok (.ok a)
    | .error e => if survives e then .ok (.error e) else .error e, fun s ↦ ?_⟩
  rw [ends_attempt]
  refine (hf s).mono ?_ ?_
  · rintro a _ ⟨ha, hlog⟩
    simp only [ha]
    exact ⟨trivial, hlog⟩
  · rintro e _ ⟨he, hlog⟩
    simp only [he]
    exact ⟨fun hsurvives ↦ ⟨if_pos hsurvives, hlog⟩, fun hends ↦ ⟨if_neg (by simp [hends]), hlog⟩⟩

theorem reads_lift (cause : ε → Failure) (result : Except ε α) : Reads (lift cause result) := by
  cases result with
  | ok a => exact reads_pure a
  | error e => exact reads_throw (cause e)

/-! ## Input files -/

/-- A check before a computation that reads. -/
theorem reads_check {c : Prop} [Decidable c] (e : Failure) {next : PUnit → Run α}
    (h : Reads (next ⟨⟩)) : Reads (if c then throw e >>= next else next ⟨⟩) := by
  split
  · exact reads_bind (reads_throw e) fun _ ↦ h
  · exact h

theorem reads_loadMapping (file : InputFile) (p : Path) : Reads (loadMapping file p) := by
  refine reads_bind (reads_query _) fun there ↦ reads_check _ ?_
  refine reads_bind (reads_query _) fun isFile ↦ reads_check _ ?_
  refine reads_bind (reads_readText p) fun text ↦ reads_bind (reads_lift _ _) fun v ↦ ?_
  cases v with
  | map entries => exact reads_pure entries
  | _ => exact reads_throw _

theorem reads_loadSchema (p : Path) : Reads (loadSchema p) := reads_loadMapping _ _

theorem reads_loadSettings (file : Option Path) (changes : List (Value × Value)) :
    Reads (loadSettings file changes) := by
  cases file with
  | none => exact reads_bind (reads_pure _) fun _ ↦ reads_lift _ _
  | some p => exact reads_bind (reads_loadMapping _ _) fun _ ↦ reads_lift _ _

/-! ## Results -/

variable {d : Disk}

@[simp] theorem resultOn_pure (a : α) : (pure a : Run α).resultOn d = .ok a := rfl

@[simp] theorem resultOn_throw (e : Failure) : (throw e : Run α).resultOn d = .error e := rfl

@[simp] theorem resultOn_say (line : LogLine) : (say line).resultOn d = .ok () := rfl

end Scaffold.Run

namespace Scaffold.StubSource

open Run

variable (s : StubSource) (key : String)

theorem reads_file? : Reads (s.file? key) := by
  rw [file?]
  cases s.folder with
  | none => exact reads_pure _
  | some folder =>
    refine reads_bind (reads_query _) fun there ↦ ?_
    cases there <;> exact reads_pure _

theorem reads_find : Reads (s.find key) := by
  refine reads_bind (s.reads_file? key) fun file ↦ ?_
  cases file with
  | some p => exact reads_readText p
  | none =>
    cases s.packaged? key with
    | some text => exact reads_pure _
    | none => exact reads_throw _

end Scaffold.StubSource
