import Scaffold.Run.Basic
import Scaffold.Proofs.Ends

/-!
# Rules for runs

How the steps of a run end, in terms of the disk they work on and of the parts they are made of.
-/

namespace Scaffold.Run

variable {α β ε : Type} {s : Scene} {good : α → Scene → Prop} {bad : Failure → Scene → Prop}

@[simp] theorem ends_say (line : LogLine) {good : Unit → Scene → Prop} :
    Ends (say line) s good bad ↔ good () { s with log := s.log ++ [line] } := by
  rw [say, ends_modify]

@[simp] theorem ends_sayAll (lines : List LogLine) {good : Unit → Scene → Prop} :
    Ends (sayAll lines) s good bad ↔ good () { s with log := s.log ++ lines } := by
  rw [sayAll, ends_modify]

@[simp] theorem ends_confirm (answers : Answers) (question : String) {good : Bool → Scene → Prop} :
    Ends (confirm answers question) s good bad ↔
      good (answers s.asked question) { s with asked := s.asked ++ [question] } := by
  rw [confirm, ends_bind, ends_get, ends_bind, ends_set, ends_pure]

theorem ends_query (question : Disk → Except DiskError α) :
    Ends (query question) s good bad ↔
      (∀ a, question s.disk = .ok a → good a s) ∧
        ∀ e, question s.disk = .error e → bad (.disk e) s := by
  rw [query, ends_bind, ends_get]
  rcases question s.disk with e | a <;> simp

variable {question : Disk → β → Except DiskError α} {b : β}

theorem ends_query_of_ok {a : α} (h : question s.disk b = .ok a) :
    Ends (query (question · b)) s good bad ↔ good a s := by
  simp [ends_query, h]

theorem ends_query_of_error {e : DiskError} (h : question s.disk b = .error e) :
    Ends (query (question · b)) s good bad ↔ bad (.disk e) s := by
  simp [ends_query, h]

theorem ends_onDisk (op : DiskOp α) :
    Ends (onDisk op) s good bad ↔
      Ends op s.disk (fun a d ↦ good a { s with disk := d })
        fun e d ↦ bad (.disk e) { s with disk := d } := by
  rw [onDisk, ends_bind, ends_get]
  rcases run_ok_or_error op s.disk with ⟨a, d, hop⟩ | ⟨e, d, hop⟩
  · rw [ends_of_run_ok hop]
    simp only [hop]
    simp
  · rw [ends_of_run_error hop]
    simp only [hop]
    simp

theorem ends_readText (p : Path) {good : String → Scene → Prop} :
    Ends (readText p) s good bad ↔
      (∀ text, s.disk.readText p = .ok text → good text s) ∧
      (∀ e, s.disk.readText p = .error (.disk e) → bad (.disk e) s) ∧
        ∀ e, s.disk.readText p = .error (.notText e) → bad (.undecodable e) s := by
  rw [readText, ends_bind, ends_get]
  rcases s.disk.readText p with ⟨e | e⟩ | text <;> simp

theorem ends_readText_of_ok {p : Path} {text : String} {good : String → Scene → Prop}
    (h : s.disk.readText p = .ok text) : Ends (readText p) s good bad ↔ good text s := by
  simp [ends_readText, h]

theorem ends_lift (cause : ε → Failure) (result : Except ε α) :
    Ends (lift cause result) s good bad ↔
      (∀ a, result = .ok a → good a s) ∧ ∀ e, result = .error e → bad (cause e) s := by
  rcases result with e | a <;> simp [lift]

theorem ends_attempt (survives : Failure → Bool) (part : Run α)
    {good : Except Failure α → Scene → Prop} :
    Ends (attempt survives part) s good bad ↔
      Ends part s (fun a t ↦ good (.ok a) t)
        fun e t ↦ (survives e = true → good (.error e) t) ∧ (survives e = false → bad e t) := by
  rw [attempt, ends_tryCatch, ends_bind]
  have hbad (e : Failure) (t : Scene) :
      Ends (if survives e = true then pure (Except.error e) else throw e : Run (Except Failure α)) t
        good bad ↔ (survives e = true → good (.error e) t) ∧ (survives e = false → bad e t) := by
    cases survives e <;> simp
  simp only [ends_pure, hbad]

/-- A part all of whose failures are survived. -/
theorem ends_attempt_all {part : Run α} (h : Ends part s good fun _ _ ↦ True) :
    Ends (attempt (fun _ ↦ true) part) s (fun result t ↦ ∀ a, result = .ok a → good a t)
      fun _ _ ↦ False := by
  rw [ends_attempt]
  apply h.mono
  · intro a t ha a' ha'
    rwa [← Except.ok.inj ha']
  · intro e t _
    simp

end Scaffold.Run
