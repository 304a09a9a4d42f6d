import Scaffold.Proofs.Backup.Pruning
import Scaffold.Proofs.Command.Numbers
import Scaffold.Proofs.Generation.Stopping

/-!
# The command that deletes old backups

What `rollback --cleanup` does for every number after it. The number that stands for the choice of
the settings is not told apart from the same number on the command line.
-/

namespace Scaffold

open Text

/-! ## The command line -/

namespace Command

/-- The option that deletes old backups. -/
def cleanupOption : CommandOption := ⟨["--cleanup"], .atMostOne, true, 1, false⟩

theorem ofTexts_cleanup {word : String}
    (h : CommandWord.ofText rollbackOptions word = .ok (.operand word)) :
    CommandRead.ofTexts rollbackOptions .nothing ["--cleanup", word] =
      if (OptionUse.integer? word).isSome then .ok ⟨[⟨cleanupOption, some word⟩], none, []⟩
      else .error (.wrong (.notInteger cleanupOption word)) := by
  have hne : word ≠ "--" := by
    rintro rfl
    exact absurd h (by decide)
  have hcleanup : CommandWord.ofText rollbackOptions "--cleanup" =
      .ok (.known cleanupOption "--cleanup" none "--cleanup") := by decide
  have hwords : CommandWord.ofTexts rollbackOptions ["--cleanup", word] =
      .ok [.known cleanupOption "--cleanup" none "--cleanup", .operand word] := by
    simp [CommandWord.ofTexts, hcleanup, h, bind, Except.bind, pure, Except.pure]
  rw [CommandRead.ofTexts, hwords]
  cases hinteger : OptionUse.integer? word <;>
    simp [CommandRead.words, OptionUse.takeApart, CommandRead.addOption, OptionUse.addAll,
      OptionUse.checkValue, OptionUse.checkGroup, hinteger, cleanupOption, CommandRead.empty,
      Except.mapError, Except.map, bind, Except.bind, pure, Except.pure]

end Command

open Command

/-- A number with too many digits is refused; any other is how many backups are kept, except for the
one that leaves it to the settings. -/
theorem Invocation.ofTexts_cleanup (n : ℤ) :
    Invocation.ofTexts ["rollback", "--cleanup", toString n] =
      if n.natAbs < 10 ^ maxDigits then
        .ok ⟨0, false, .rollback ⟨none, none, none⟩
          (.cleanup (if n = settingsKeep then none else some n)) false⟩
      else .error ⟨"modulegen rollback", .wrong (.notInteger cleanupOption (toString n))⟩ := by
  have hmain : CommandWord.ofText mainOptions (toString n) = .ok (.operand (toString n)) :=
    CommandWord.ofText_toString (by decide) n
  have hrollback : CommandWord.ofText rollbackOptions (toString n) = .ok (.operand (toString n)) :=
    CommandWord.ofText_toString (by decide) n
  have hinteger := OptionUse.integer?_toString n
  generalize toString n = word at *
  have hne : word ≠ "--" := by
    rintro rfl
    exact absurd hrollback (by decide)
  have hname : CommandWord.ofText mainOptions "rollback" = .ok (.operand "rollback") := by
    decide
  have hcleanup : CommandWord.ofText mainOptions "--cleanup" = .ok (.unknown "--cleanup") := by
    decide
  have hwords : CommandWord.ofTexts mainOptions ["rollback", "--cleanup", word] =
      .ok [.operand "rollback", .unknown "--cleanup", .operand word] := by
    simp [CommandWord.ofTexts, hname, hcleanup, hmain, bind, Except.bind, pure, Except.pure]
  have hread : CommandRead.ofTexts mainOptions (.command "COMMAND") ["rollback", "--cleanup", word] =
      .ok ⟨[], some ("rollback", ["--cleanup", word]), []⟩ := by
    rw [CommandRead.ofTexts, hwords]
    rfl
  have hoption := Command.ofTexts_cleanup hrollback
  rw [hinteger] at hoption
  rw [ofTexts, hread]
  simp only [Except.mapError, bind, Except.bind, Option.getD_some, ofWords, hoption]
  by_cases h : n.natAbs < 10 ^ maxDigits
  · simp [h, pure, Except.pure, modeOf, CommandRead.has, CommandRead.count, cleanupOption, keepOf,
      hinteger, CommandRead.value?, projectOf]
  · simp [h, programOf, names, program]

/-! ## What it does -/

open Disk BackupStore

variable {s : Scene} {d : Disk} {names : List String}

/-- The store of a project in the working directory, with the settings that are made for it. -/
def usualStore : BackupStore := .ofSettings .default

/-- Where its sessions are. -/
def usualPlace (d : Disk) : Location := d.cwd ++ ["storage", "app", "backups"]

theorem resolve_usualStore (d : Disk) : d.resolve usualStore.folder = usualPlace d :=
  resolve_append d 0 [] (by decide)

theorem pathFault?_usualStore {name : String} (h : Nameable name) :
    pathFault? (usualStore.folder.child name) = none := by
  have hshort : name.utf8ByteSize ≤ 255 := by simpa [isTooLong] using h.short
  have hpath : usualStore.folder.child name = ⟨0, ["storage", "app", "backups"] ++ [name]⟩ := rfl
  rw [hpath, pathFault?_eq_none_iff]
  refine ⟨List.forall_mem_append.2 ⟨by decide, by simpa using h.noNul⟩, ?_⟩
  have hsize : "storage/app/backups/".utf8ByteSize = 20 := by decide
  have htext : Path.toString ⟨0, ["storage", "app", "backups"] ++ [name]⟩ =
      "storage/app/backups/" ++ name := by
    rw [toString_of_ne_nil _ (by simp), String.intercalate_append_of_ne_nil (by simp) (by simp)]
    rfl
  rw [htext, String.utf8ByteSize_append]
  omega

/-- Each session can be deleted. -/
theorem removable_usualStore (hwf : d.WellFormed) {name : String} (hne : name ≠ "..")
    (h : (d.node? (usualPlace d ++ [name])).isSome) : usualStore.Removable d d name where
  ne := hne
  fault := pathFault?_usualStore (hwf.nameable_of_isSome h name (by simp))
  isSome := by rwa [resolve_usualStore]
  cwd hpre := by
    have hlength := hpre.length_le
    simp [resolve_usualStore, usualPlace] at hlength
  way q hq _ hpre := by
    have hpath : d.resolve ⟨usualStore.folder.slashes, q⟩ = d.cwd ++ q :=
      resolve_append d 0 [] fun hup ↦ absurd (hq.subset hup) (by decide)
    have hlength := hpre.length_le
    have hparts : q.length ≤ 3 := hq.length_le
    rw [hpath, resolve_usualStore] at hlength
    simp [usualPlace] at hlength
    omega

theorem usualStore_sessions (hwf : s.disk.WellFormed)
    (hdots : ".." ∉ s.disk.namesIn (usualPlace s.disk)) {good : List Path → Scene → Prop}
    {bad : Failure → Scene → Prop} : Ends usualStore.sessions s good bad ↔
      good ((sessionNames s.disk (usualPlace s.disk)).map usualStore.folder.child) s := by
  rw [ends_sessions_of_short hwf (by decide) (fun _ ↦ pathFault?_usualStore)
    (by rwa [resolve_usualStore]), resolve_usualStore]

/-- What the command does with a number, or with none. -/
theorem Command.ends_rollback_cleanup (hwf : s.disk.WellFormed)
    (honce : (s.disk.namesIn (usualPlace s.disk)).Nodup)
    (hdots : ".." ∉ s.disk.namesIn (usualPlace s.disk)) (keep : Option ℤ) (answers : Answers)
    (moment : Moment) :
    Ends ((Command.rollback ⟨none, none, none⟩ (.cleanup keep) false).run answers moment) s
      (fun r t ↦ if keep.getD 5 < 1 then r.code = inputError ∧ t.disk = s.disk
        else r.code = success ∧ Pruned (usualPlace s.disk)
          ((sessionNames s.disk (usualPlace s.disk)).drop (keep.getD 5).toNat) s.disk t.disk)
      fun _ _ ↦ False := by
  have hsettings : Settings.ofEntries [] = .ok .default := rfl
  have hload : (Run.loadSettings none [] : Run Settings) = pure .default := by
    simp [Run.loadSettings, Settings.override, hsettings, Run.lift]
  have hchanges : (Command.rollback ⟨none, none, none⟩ (.cleanup keep) false).changes = [] := rfl
  rw [run, withSettings, hchanges, path?, Command.project, Option.bind_none, hload, ends_bind,
    Run.ends_attempt, ends_pure]
  simp only [runRollback]
  rw [ends_bind, Run.ends_attempt]
  have hanchored : s.disk.Anchored usualStore.folder := anchoredFrom_of_plain _ _ (by decide)
  by_cases hkeep : keep.getD 5 < 1
  · simp only [if_pos hkeep]
    refine (ends_cleanup_of_lt hkeep).2 ⟨fun _ ↦ ?_, fun hlevel ↦ absurd hlevel (by decide)⟩
    exact (ends_refuse _ _).2 ⟨rfl, rfl⟩
  · simp only [if_neg hkeep]
    have hnodup := (pairwise_sessionNames honce).imp fun {x y} hlt ↦ ne_of_gt hlt
    refine (Reaches.ends_cleanup hanchored (Reaches.refl hwf) hnodup (not_lt.1 hkeep)
      (fun _ _ ↦ usualStore_sessions hwf hdots) fun name hname ↦ ?_).mono ?_ fun _ _ ↦ False.elim
    · have hdir := mem_sessionNames.1 (List.mem_of_mem_drop hname)
      refine removable_usualStore hwf ?_ (by rw [hdir]; rfl)
      rintro rfl
      exact hdots (mem_namesIn.2 (by rw [hdir]; rfl))
    · rintro n t ⟨-, hpruned⟩
      rw [resolve_usualStore] at hpruned
      exact (ends_pure _).2 ⟨rfl, hpruned⟩

/-- An invocation whose command ends well ends with its code and its disk. -/
theorem Invocation.run_of_ends {i : Invocation} (input : String) {moment : Moment} (time : String)
    {good : CommandResult → Scene → Prop}
    (h : Ends (i.command.run (answersOf input) moment) ⟨d, [], []⟩ good fun _ _ ↦ False) :
    ∃ result t, good result t ∧ (i.run input moment time d).1.code = .ok result.code ∧
      (i.run input moment time d).2 = t.disk := by
  obtain ⟨result, t, hrun, hgood⟩ := h.exists_run
  refine ⟨result, t, hgood, ?_, ?_⟩ <;> rw [run, hrun]

/-- A clean-up with a number of sessions to keep, over any disk that writes no name of the sessions
down twice and knows the step upwards as no name: a number below one is refused, and any other keeps
so many of the listed sessions and deletes the rest. A number with too many digits is no number to
the command line, and minus one is taken for no number, so that the settings decide. -/
theorem runProgram_cleanup (d : Disk) (hwf : d.WellFormed)
    (honce : (d.namesIn (usualPlace d)).Nodup) (hdots : ".." ∉ d.namesIn (usualPlace d)) (n : ℤ)
    (input : String) (moment : Moment) (time : String) :
    let names := sessionNames d (usualPlace d)
    let program := runProgram ["rollback", "--cleanup", toString n] input moment time d
    ((∀ name, name ∈ names ↔ d.node? (usualPlace d ++ [name]) = some .dir) ∧
      names.Pairwise (fun x y ↦ y < x) ∧
      Ends usualStore.list ⟨d, [], []⟩ (fun infos _ ↦ infos.map (·.timestamp) = names)
        fun _ _ ↦ True) ∧
    (10 ^ maxDigits ≤ n.natAbs → program.1.code = .ok 2 ∧ program.2 = d) ∧
    (n.natAbs < 10 ^ maxDigits →
      (n < 1 → n ≠ -1 → program.1.code = .ok inputError ∧ program.2 = d) ∧
      (n = -1 → program.1.code = .ok success ∧ Pruned (usualPlace d) (names.drop 5) d program.2) ∧
      (1 ≤ n → program.1.code = .ok success ∧
        Pruned (usualPlace d) (names.drop n.toNat) d program.2)) := by
  intro names program
  have hsessions : ∀ good bad, Ends usualStore.sessions ⟨d, [], []⟩ good bad ↔
      good (names.map usualStore.folder.child) ⟨d, [], []⟩ := fun _ _ ↦
    usualStore_sessions (s := ⟨d, [], []⟩) hwf hdots
  refine ⟨⟨fun name ↦ mem_sessionNames, pairwise_sessionNames honce,
    ends_list_timestamps hsessions⟩, fun hlong ↦ ?_, fun hshort ↦ ?_⟩
  · simp only [program, runProgram, Invocation.ofTexts_cleanup, if_neg (not_lt.2 hlong)]
    exact ⟨rfl, trivial⟩
  · simp only [program, runProgram, Invocation.ofTexts_cleanup, if_pos hshort]
    generalize hkeep : (if n = settingsKeep then none else some n) = keep
    obtain ⟨result, t, hends, hcode, hdisk⟩ := Invocation.run_of_ends input time
      (i := ⟨0, false, .rollback ⟨none, none, none⟩ (.cleanup keep) false⟩)
      (Command.ends_rollback_cleanup (s := ⟨d, [], []⟩) hwf honce hdots keep (answersOf input) moment)
    rw [hcode, hdisk]
    have hminus : settingsKeep = -1 := rfl
    refine ⟨fun hn hne ↦ ?_, fun hn ↦ ?_, fun hn ↦ ?_⟩
    · rw [if_neg (hminus ▸ hne)] at hkeep
      subst hkeep
      rw [Option.getD_some, if_pos hn] at hends
      exact ⟨congrArg _ hends.1, hends.2⟩
    · rw [if_pos (hn.trans hminus.symm)] at hkeep
      subst hkeep
      rw [Option.getD_none, if_neg (by decide)] at hends
      exact ⟨congrArg _ hends.1, hends.2⟩
    · rw [if_neg (by omega)] at hkeep
      subst hkeep
      rw [Option.getD_some, if_neg (not_lt.2 hn)] at hends
      exact ⟨congrArg _ hends.1, hends.2⟩

namespace SmallProject

/-- A project with six sessions. -/
def shelf : Disk where
  nodes := [(["storage"], .dir), (["storage", "app"], .dir)] ++
    ([] :: ["6", "5", "4", "3", "2", "1"].map ([·])).map fun l ↦
      (["storage", "app", "backups"] ++ l, .dir)
  cwd := []

/-- Zero is refused, and minus one deletes the session that is listed last. -/
theorem shelf_cleanup :
    (runProgram ["rollback", "--cleanup", toString (0 : ℤ)] "" moment "" shelf).1.code =
        .ok inputError ∧
      (runProgram ["rollback", "--cleanup", toString (-1 : ℤ)] "" moment "" shelf).1.code =
        .ok success ∧
      ∀ l, (runProgram ["rollback", "--cleanup", toString (-1 : ℤ)] "" moment "" shelf).2.node? l =
        if ["storage", "app", "backups", "1"] <+: l then none else shelf.node? l := by
  have hpow : 1 < 10 ^ maxDigits := Nat.one_lt_pow (by decide) (by decide)
  have hcleanup (n : ℤ) := runProgram_cleanup shelf (by decide) (by decide) (by decide) n "" moment ""
  obtain ⟨-, -, hzero⟩ := hcleanup 0
  obtain ⟨-, -, hminus⟩ := hcleanup (-1)
  have hgone : (sessionNames shelf (usualPlace shelf)).drop 5 = ["1"] := by
    rw [sessionNames, List.mergeSort_of_pairwise (by decide)]
    rfl
  obtain ⟨hcode, hpruned⟩ := (hminus hpow).2.1 rfl
  refine ⟨((hzero (by rw [Int.natAbs_zero]; omega)).1 (by decide) (by decide)).1, hcode, fun l ↦ ?_⟩
  have hl := hpruned l
  rw [hgone] at hl
  simpa [usualPlace, shelf] using hl

end SmallProject

end Scaffold
