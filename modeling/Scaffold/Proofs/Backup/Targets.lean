import Scaffold.Artifact.Migration
import Scaffold.Backup.Store
import Scaffold.Proofs.Disk.Patterns
import Scaffold.Proofs.Name.Studly
import Scaffold.Proofs.Text.Endings
import Scaffold.Proofs.Text.Pieces

/-!
# The paths that a backup looks at

All of them lead through directories whose names are words to a file whose name ends in `.php`, and
so do the paths of the copies. No session has such a name, and a copy tells its original.
-/

namespace Scaffold

/-! ## Paths and their texts -/

namespace Path

/-- A path whose names are not empty and not a point is read as it is written. -/
theorem ofString_toString {parts : List String} (hne : parts ≠ [])
    (h : ∀ part ∈ parts, '/' ∉ part.toList ∧ part ≠ "" ∧ part ≠ ".") :
    Path.ofString (Path.toString ⟨0, parts⟩) = ⟨0, parts⟩ := by
  have htext : (Path.toString ⟨0, parts⟩).toList = ['/'].intercalate (parts.map String.toList) := by
    rw [Disk.toString_of_ne_nil _ hne]
    simp
  have hstart : ((Path.toString ⟨0, parts⟩).toList.takeWhile (· == '/')).length = 0 := by
    obtain ⟨x, rest, rfl⟩ := List.exists_cons_of_ne_nil hne
    obtain ⟨hslash, hempty, -⟩ := h x (by simp)
    obtain ⟨c, cs, hx⟩ := List.exists_cons_of_ne_nil
      (mt String.toList_eq_nil_iff.1 hempty)
    have hc : (c == '/') = false := by
      rw [hx, List.mem_cons, not_or] at hslash
      simpa using fun hc : c = '/' ↦ hslash.1 hc.symm
    rw [htext]
    cases rest <;> simp [hx, hc]
  have hcut : Text.cut '/' (Path.toString ⟨0, parts⟩) = parts := by
    rw [Text.cut, htext, List.splitOn_intercalate _ _ (by simpa using hne)]
    · simp
    · intro l hl
      obtain ⟨part, hpart, rfl⟩ := List.mem_map.1 hl
      exact (h part hpart).1
  have hkeep : (parts.filter fun part ↦ part != "" && part != ".") = parts := by
    rw [List.filter_eq_self]
    intro part hpart
    simpa using (h part hpart).2
  rw [Path.ofString, hstart, hcut, hkeep]
  rfl

end Path

/-! ## Targets -/

/-- A name of letters and digits. -/
def IsWord (name : String) : Prop := name ≠ "" ∧ ∀ c ∈ name.toList, c.isAlphanum = true

instance : DecidablePred IsWord := fun name ↦
  decidable_of_iff (name ≠ "" ∧ name.toList.all Char.isAlphanum = true) (by simp [IsWord])

/-- A relative path through words to a file whose name ends in `.php`. -/
def Path.IsTarget (o : Path) : Prop :=
  ∃ dirs file, o = ⟨0, dirs ++ [file]⟩ ∧ dirs ≠ [] ∧ (∀ name ∈ dirs, IsWord name) ∧
    Text.endsWith file ".php" = true ∧ '/' ∉ file.toList

theorem IsWord.not_mem {name : String} (h : IsWord name) {c : Char} (hc : c.isAlphanum = false) :
    c ∉ name.toList := fun hmem ↦ by
  rw [h.2 c hmem] at hc
  cases hc

theorem ne_of_endsWith {file name : String} (h : Text.endsWith file ".php" = true)
    (hname : '.' ∉ name.toList ∨ 'p' ∉ name.toList) : file ≠ name := by
  rintro rfl
  have hsub := (endsWith_iff.1 h).subset
  exact hname.elim (fun hdot ↦ hdot (hsub (by decide))) fun hp ↦ hp (hsub (by decide))

namespace Path.IsTarget

variable {o o' : Path}

theorem spelled (h : o.IsTarget) : ∀ part ∈ o.parts, '/' ∉ part.toList := by
  obtain ⟨dirs, file, rfl, -, hdirs, -, hslash⟩ := h
  intro part hpart
  rcases List.mem_append.1 hpart with hpart | hpart
  · exact (hdirs part hpart).not_mem (by decide)
  · rwa [List.mem_singleton.1 hpart]

/-- No name of a target is a point, two points or empty. -/
theorem ne_of_mem (h : o.IsTarget) {part : String} (hpart : part ∈ o.parts) :
    part ≠ "" ∧ part ≠ "." ∧ part ≠ ".." := by
  obtain ⟨dirs, file, rfl, -, hdirs, hphp, -⟩ := h
  rcases List.mem_append.1 hpart with hpart | hpart
  · have hdot := (hdirs part hpart).not_mem (c := '.') (by decide)
    refine ⟨(hdirs part hpart).1, ?_, ?_⟩
    · rintro rfl
      exact hdot (by decide)
    · rintro rfl
      exact hdot (by decide)
  · rw [List.mem_singleton.1 hpart]
    exact ⟨ne_of_endsWith hphp (.inl (by decide)), ne_of_endsWith hphp (.inr (by decide)),
      ne_of_endsWith hphp (.inr (by decide))⟩

theorem plain (h : o.IsTarget) : ".." ∉ o.parts := fun hmem ↦ (h.ne_of_mem hmem).2.2 rfl

theorem ofString_toString (h : o.IsTarget) : Path.ofString o.toString = o := by
  obtain ⟨dirs, file, ho, -⟩ := id h
  have hne : dirs ++ [file] ≠ [] := by simp
  rw [ho]
  refine Path.ofString_toString hne fun part hpart ↦ ?_
  have hmem : part ∈ o.parts := by rwa [ho]
  exact ⟨h.spelled part hmem, (h.ne_of_mem hmem).1, (h.ne_of_mem hmem).2.1⟩

theorem slashes (h : o.IsTarget) : o.slashes = 0 := by
  obtain ⟨dirs, file, rfl, -⟩ := h
  rfl

theorem toString_ne (h : o.IsTarget) : o.toString ≠ "" := by
  intro htext
  have := h.ofString_toString
  rw [htext] at this
  obtain ⟨dirs, file, rfl, -⟩ := h
  have hparts := congrArg Path.parts this
  have hempty : (Path.ofString "").parts = [] := by decide
  rw [hempty] at hparts
  simp at hparts

/-- A way to a target is no target itself. -/
theorem ne_of_prefix (h : o.IsTarget) (h' : o'.IsTarget) {q : List String} (hq : q <+: o.parts)
    (hne : q ≠ o.parts) : q ≠ o'.parts := by
  obtain ⟨dirs, file, rfl, -, hdirs, -⟩ := h
  obtain ⟨dirs', file', rfl, -, -, hphp, -⟩ := h'
  rintro rfl
  have hpre : dirs' ++ [file'] <+: dirs := by
    rw [List.prefix_concat_iff] at hq
    exact hq.resolve_left hne
  have hmem : file' ∈ dirs := hpre.subset (by simp)
  exact ne_of_endsWith hphp (.inl ((hdirs file' hmem).not_mem (by decide))) rfl

end Path.IsTarget

/-! ## Paths that are read from texts -/

/-- No name of a path that is read from a text holds a slash. -/
theorem Path.spelled_ofString (s : String) : (Path.ofString s).Spelled := by
  intro part hpart
  have hcut : part ∈ Text.cut '/' s := (List.mem_filter.1 hpart).1
  obtain ⟨piece, hpiece, rfl⟩ := List.mem_map.1 hcut
  rw [String.toList_ofList]
  exact Text.not_mem_of_mem_splitOn hpiece

theorem Path.Spelled.append {p q : Path} (hp : p.Spelled) (hq : q.Spelled) : (p ++ q).Spelled := by
  change (p.join q).Spelled
  rw [Path.join]
  split
  · exact List.forall_mem_append.2 ⟨hp, hq⟩
  · exact hq

/-! ## Targets in a project -/

theorem Path.append_eq {o : Path} (root : Path) (h : o.slashes = 0) :
    root ++ o = ⟨root.slashes, root.parts ++ o.parts⟩ := by
  change root.join o = _
  rw [Path.join, h]
  rfl

namespace Path.IsTarget

variable {o : Path} {d : Disk} {root : Path}

theorem append_eq (h : o.IsTarget) (root : Path) :
    root ++ o = ⟨root.slashes, root.parts ++ o.parts⟩ := Path.append_eq root h.slashes

theorem resolve_eq (h : o.IsTarget) (d : Disk) (root : Path) :
    d.resolve (root ++ o) = d.resolve root ++ o.parts := by
  rw [h.append_eq, Disk.resolve_append _ _ _ h.plain]

theorem anchored (h : o.IsTarget) (hanchor : d.Anchored root) : d.Anchored (root ++ o) := by
  rw [h.append_eq]
  exact (Disk.anchoredFrom_append _ _ _ _).2 ⟨hanchor, Disk.anchoredFrom_of_plain _ _ h.plain⟩

theorem spelled_append (h : o.IsTarget) (hroot : root.Spelled) : (root ++ o).Spelled := by
  rw [h.append_eq]
  intro part hpart
  exact (List.mem_append.1 hpart).elim (hroot part) (h.spelled part)

end Path.IsTarget

/-! ## Sessions -/

/-- The name of a session is a stamp of digits, hyphens and underscores. -/
structure IsSessionName (name : String) : Prop where
  chars : ∀ c ∈ name.toList, c.isDigit = true ∨ c = '-' ∨ c = '_'
  hyphen : '-' ∈ name.toList

theorem IsSessionName.char_not_mem {name : String} (h : IsSessionName name) {c : Char}
    (hc : ¬(c.isDigit = true ∨ c = '-' ∨ c = '_')) : c ∉ name.toList := fun hmem ↦ hc (h.chars c hmem)

theorem IsSessionName.ne_dots {name : String} (h : IsSessionName name) : name ≠ ".." := by
  rintro rfl
  exact h.char_not_mem (c := '.') (by decide) (by decide)

theorem IsSessionName.not_mem {name : String} (h : IsSessionName name) {o : Path}
    (ho : o.IsTarget) : name ∉ o.parts := by
  obtain ⟨dirs, file, rfl, -, hdirs, hphp, -⟩ := ho
  intro hmem
  rcases List.mem_append.1 hmem with hmem | hmem
  · exact (hdirs name hmem).not_mem (by decide) h.hyphen
  · refine ne_of_endsWith hphp (.inl fun hdot ↦ ?_) (List.mem_singleton.1 hmem).symm
    have := h.chars '.' hdot
    revert this
    decide

theorem IsSessionName.ofString {name : String} (h : IsSessionName name) :
    Path.ofString name = ⟨0, [name]⟩ := by
  have hne : name ≠ "" := by
    rintro rfl
    exact absurd h.hyphen (by decide)
  have htext : Path.toString ⟨0, [name]⟩ = name := by
    rw [Disk.toString_of_ne_nil _ (by simp)]
    simp
  have hparts : ∀ part ∈ [name], '/' ∉ part.toList ∧ part ≠ "" ∧ part ≠ "." := by
    intro part hpart
    rw [List.mem_singleton.1 hpart]
    refine ⟨h.char_not_mem (by decide), hne, ?_⟩
    rintro rfl
    exact absurd h.hyphen (by decide)
  have := Path.ofString_toString (by simp) hparts
  rwa [htext] at this

theorem isDigit_of_mem_toString {n : Nat} : ∀ c ∈ (toString n).toList, c.isDigit = true := by
  intro c hc
  rw [Nat.toString_eq_repr, Nat.toList_repr] at hc
  exact Nat.isDigit_of_mem_toDigits (by decide) (by decide) hc

theorem isDigit_of_mem_twoDigits {n : Nat} : ∀ c ∈ (Value.twoDigits n).toList, c.isDigit = true := by
  intro c hc
  rw [Value.twoDigits] at hc
  split at hc
  · rw [String.toList_append, List.mem_append] at hc
    rcases hc with hc | hc
    · have : c = '0' := by simpa using hc
      rw [this]
      decide
    · exact isDigit_of_mem_toString c hc
  · exact isDigit_of_mem_toString c hc

theorem isSessionName_backupStamp (m : Moment) : IsSessionName m.backupStamp := by
  have htext (s : String) : toString s = s := rfl
  have hhyphen : ∀ c ∈ "-".toList, c.isDigit = true ∨ c = '-' ∨ c = '_' := by simp
  have hunder : ∀ c ∈ "_".toList, c.isDigit = true ∨ c = '-' ∨ c = '_' := by simp
  have hyear : ∀ c ∈ (toString m.date.year).toList, c.isDigit = true ∨ c = '-' ∨ c = '_' :=
    fun c hc ↦ .inl (isDigit_of_mem_toString c hc)
  have htwo (n : Nat) : ∀ c ∈ (Value.twoDigits n).toList, c.isDigit = true ∨ c = '-' ∨ c = '_' :=
    fun c hc ↦ .inl (isDigit_of_mem_twoDigits c hc)
  constructor
  · simp only [Moment.backupStamp, htext, String.toList_append, List.forall_mem_append]
    exact ⟨⟨⟨⟨⟨⟨hyear, hhyphen⟩, htwo _⟩, hhyphen⟩, htwo _⟩, hunder⟩,
      ⟨⟨⟨htwo _, hhyphen⟩, htwo _⟩, hhyphen⟩, htwo _⟩
  · simp only [Moment.backupStamp, htext, String.toList_append, List.mem_append]
    simp

theorem isSessionName_sessionName (m : Moment) (k : Nat) :
    IsSessionName (BackupStore.sessionName m.backupStamp k) := by
  have hstamp := isSessionName_backupStamp m
  rw [BackupStore.sessionName]
  split
  · exact hstamp
  · have htext (s : String) : toString s = s := rfl
    have hunder : ∀ c ∈ "_".toList, c.isDigit = true ∨ c = '-' ∨ c = '_' := by simp
    constructor
    · simp only [htext, String.toList_append, List.forall_mem_append]
      exact ⟨⟨hstamp.chars, hunder⟩, fun c hc ↦ .inl (isDigit_of_mem_toString c hc)⟩
    · simp [htext, hstamp.hyphen]

/-! ## Artifacts -/

theorem isWord_studly (name : String) : Name.studly name = "" ∨ IsWord (Name.studly name) :=
  (eq_or_ne _ _).imp_right fun h ↦ ⟨h, Name.isAlphanum_of_mem_studly⟩

namespace Artifact

/-- The directories in which the files of an artifact stand. -/
def dirs (a : Artifact) (studly : String) : List String :=
  match a with
  | model => ["app", "Models"]
  | migration => ["database", "migrations"]
  | request => ["app", "Http", "Requests"]
  | resource | collection => ["app", "Http", "Resources"] ++ if studly = "" then [] else [studly]
  | service => ["app", "Services"]
  | controller => ["app", "Http", "Controllers"]
  | factory => ["database", "factories"]
  | seeder => ["database", "seeders"]

/-- The directories of the copies of an artifact in a session. -/
def copyDirs (a : Artifact) (studly : String) : List String :=
  match a with
  | migration => ["migrations"]
  | resource | collection => [a.name] ++ if studly = "" then [] else [studly]
  | _ => [a.name]

variable {a : Artifact} {c : Configuration}

theorem ofString_resources {studly : String} (h : studly = "" ∨ IsWord studly) :
    Path.ofString ("app/Http/Resources/" ++ studly) = ⟨0, resource.dirs studly⟩ := by
  rcases h with rfl | h
  · decide
  · have hslash := h.not_mem (c := '/') (by decide)
    have hdot : studly ≠ "." := by
      rintro rfl
      exact h.not_mem (c := '.') (by decide) (by decide)
    have htext : "app/Http/Resources/" ++ studly =
        Path.toString ⟨0, ["app", "Http", "Resources", studly]⟩ := by
      rw [Disk.toString_of_ne_nil _ (by simp), ← String.toList_inj]
      simp [String.intercalate_cons_cons]
    rw [htext, Path.ofString_toString (by simp)]
    · simp [dirs, h.1]
    · simp only [List.forall_mem_cons, List.not_mem_nil, false_imp_iff, implies_true, and_true]
      exact ⟨by decide, by decide, by decide, hslash, h.1, hdot⟩

/-- The role of an artifact's class. -/
def role : Artifact → String
  | model | migration => ""
  | request => "Request"
  | resource => "Resource"
  | collection => "Collection"
  | service => "Service"
  | controller => "Controller"
  | factory => "Factory"
  | seeder => "Seeder"

theorem isAlphanum_of_mem_role (a : Artifact) : ∀ ch ∈ a.role.toList, ch.isAlphanum = true := by
  cases a <;> simp [role]

/-- Every artifact but the migration has its path. -/
theorem fixedPath?_eq (h : c.studly = "" ∨ IsWord c.studly) (ha : a ≠ migration) :
    a.fixedPath? c = some ⟨0, a.dirs c.studly ++ [c.studly ++ a.role ++ ".php"]⟩ := by
  have hfolder (folder : String) (hplace : a.place c.studly = some (folder, a.role))
      (hparts : Path.ofString folder = ⟨0, a.dirs c.studly⟩) :
      a.fixedPath? c = some ⟨0, a.dirs c.studly ++ [c.studly ++ a.role ++ ".php"]⟩ := by
    rw [fixedPath?, hplace, Option.map_some]
    simp only [hparts]
    rfl
  have hmodels : Path.ofString "app/Models" = ⟨0, ["app", "Models"]⟩ := by decide
  have hrequests : Path.ofString "app/Http/Requests" = ⟨0, ["app", "Http", "Requests"]⟩ := by decide
  have hservices : Path.ofString "app/Services" = ⟨0, ["app", "Services"]⟩ := by decide
  have hcontrollers : Path.ofString "app/Http/Controllers" =
      ⟨0, ["app", "Http", "Controllers"]⟩ := by decide
  have hfactories : Path.ofString "database/factories" = ⟨0, ["database", "factories"]⟩ := by decide
  have hseeders : Path.ofString "database/seeders" = ⟨0, ["database", "seeders"]⟩ := by decide
  cases a with
  | migration => exact absurd rfl ha
  | resource | collection => exact hfolder _ rfl (ofString_resources h)
  | model => exact hfolder _ rfl hmodels
  | request => exact hfolder _ rfl hrequests
  | service => exact hfolder _ rfl hservices
  | controller => exact hfolder _ rfl hcontrollers
  | factory => exact hfolder _ rfl hfactories
  | seeder => exact hfolder _ rfl hseeders

/-- The characters of the file name of an artifact. -/
theorem mem_fileName (h : c.studly = "" ∨ IsWord c.studly) {ch : Char}
    (hch : ch ∈ (c.studly ++ a.role ++ ".php").toList) : ch.isAlphanum = true ∨ ch = '.' := by
  have hphp : ∀ ch ∈ ".php".toList, ch.isAlphanum = true ∨ ch = '.' := by simp
  simp only [String.toList_append, List.mem_append] at hch
  rcases hch with (hch | hch) | hch
  · rcases h with h | h
    · simp [h] at hch
    · exact .inl (h.2 ch hch)
  · exact .inl (a.isAlphanum_of_mem_role ch hch)
  · exact hphp ch hch

theorem isWord_of_mem_dirs {studly : String} (h : studly = "" ∨ IsWord studly) :
    ∀ name ∈ a.dirs studly, IsWord name := by
  have hlast : ∀ name ∈ (if studly = "" then [] else [studly]), IsWord name := by
    split
    · simp
    · next hne => simpa using h.resolve_left hne
  cases a with
  | resource | collection => exact List.forall_mem_append.2 ⟨by decide, hlast⟩
  | model | migration | request | service | controller | factory | seeder =>
    simp only [dirs]
    decide

theorem isWord_of_mem_copyDirs {studly : String} (h : studly = "" ∨ IsWord studly) :
    ∀ name ∈ a.copyDirs studly, IsWord name := by
  have hlast : ∀ name ∈ (if studly = "" then [] else [studly]), IsWord name := by
    split
    · simp
    · next hne => simpa using h.resolve_left hne
  cases a with
  | resource | collection => exact List.forall_mem_append.2 ⟨by decide, hlast⟩
  | model | migration | request | service | controller | factory | seeder =>
    simp only [copyDirs]
    decide

theorem dirs_ne_nil (a : Artifact) (studly : String) : a.dirs studly ≠ [] := by
  cases a <;> simp [dirs]

theorem copyDirs_ne_nil (a : Artifact) (studly : String) : a.copyDirs studly ≠ [] := by
  cases a <;> simp [copyDirs]

theorem length_dirs_le (a : Artifact) (studly : String) : (a.dirs studly).length ≤ 4 := by
  by_cases h : studly = "" <;> cases a <;> simp [dirs, h]

/-- Where a copy lies tells where its original lies. -/
theorem dirs_eq_of_copyDirs_eq {a' : Artifact} {studly studly' : String}
    (h : a.copyDirs studly = a'.copyDirs studly') : a.dirs studly = a'.dirs studly' := by
  cases a <;> cases a' <;> simp_all [copyDirs, dirs, name]

theorem copyDirs_ne_routes {studly : String} : a.copyDirs studly ≠ ["routes"] := by
  cases a <;> simp [copyDirs, name]

/-- A copy has the name of its original. -/
theorem copyPath_eq_of_name (a : Artifact) (studly : String) (o : Path) :
    BackupStore.copyPath a studly o = ⟨0, a.copyDirs studly ++ [o.name]⟩ := by
  by_cases h : studly = "" <;> cases a <;> simp [BackupStore.copyPath, copyDirs, h]

theorem copyPath_eq (a : Artifact) (studly file : String) (parts : List String) :
    BackupStore.copyPath a studly ⟨0, parts ++ [file]⟩ = ⟨0, a.copyDirs studly ++ [file]⟩ := by
  have hname : Path.name ⟨0, parts ++ [file]⟩ = file := by simp [Path.name]
  rw [copyPath_eq_of_name, hname]

end Artifact

/-! ## Copies -/

/-- A copy and its original: of an artifact, or of the route file. -/
structure Path.CopyOf (c o : Path) : Prop where
  original : o.IsTarget
  copy : c.IsTarget
  short : o.parts.length ≤ 5
  place : (∃ (a : Artifact) (studly file : String),
      o = ⟨0, a.dirs studly ++ [file]⟩ ∧ c = ⟨0, a.copyDirs studly ++ [file]⟩) ∨
    ∃ file, o = ⟨0, ["routes", file]⟩ ∧ c = ⟨0, ["routes", file]⟩

/-- A copy has one original. -/
theorem Path.CopyOf.eq {c o o' : Path} (h : c.CopyOf o) (h' : c.CopyOf o') : o = o' := by
  have hsplit {dirs dirs' : List String} {file file' : String}
      (heq : (⟨0, dirs ++ [file]⟩ : Path) = ⟨0, dirs' ++ [file']⟩) : dirs = dirs' ∧ file = file' := by
    have hparts := congrArg Path.parts heq
    exact ⟨(List.append_inj' hparts rfl).1, List.singleton_inj.1 (List.append_inj' hparts rfl).2⟩
  have hroutes (file : String) : ["routes", file] = ["routes"] ++ [file] := rfl
  rcases h.place with ⟨a, studly, file, rfl, rfl⟩ | ⟨file, rfl, rfl⟩
  · rcases h'.place with ⟨a', studly', file', rfl, heq⟩ | ⟨file', rfl, heq⟩
    · obtain ⟨hdirs, rfl⟩ := hsplit heq
      rw [Artifact.dirs_eq_of_copyDirs_eq hdirs]
    · rw [hroutes] at heq
      exact absurd (hsplit heq).1 Artifact.copyDirs_ne_routes
  · rcases h'.place with ⟨a', studly', file', rfl, heq⟩ | ⟨file', rfl, heq⟩
    · rw [hroutes] at heq
      exact absurd (hsplit heq).1.symm Artifact.copyDirs_ne_routes
    · exact heq

namespace Artifact

variable {a : Artifact} {c : Configuration}

/-- A file of an artifact that is a target is one with its copy. -/
theorem copyOf {studly file : String} (h : studly = "" ∨ IsWord studly)
    (hphp : Text.endsWith file ".php" = true) (hslash : '/' ∉ file.toList) :
    Path.CopyOf ⟨0, a.copyDirs studly ++ [file]⟩ ⟨0, a.dirs studly ++ [file]⟩ where
  original := ⟨_, _, rfl, dirs_ne_nil a studly, isWord_of_mem_dirs h, hphp, hslash⟩
  copy := ⟨_, _, rfl, copyDirs_ne_nil a studly, isWord_of_mem_copyDirs h, hphp, hslash⟩
  short := by
    have := length_dirs_le a studly
    simp only [List.length_append, List.length_singleton]
    omega
  place := .inl ⟨a, studly, file, rfl, rfl⟩

theorem copyOf_fixedPath? (h : c.studly = "" ∨ IsWord c.studly) {o : Path}
    (ho : a.fixedPath? c = some o) : (BackupStore.copyPath a c.studly o).CopyOf o := by
  have ha : a ≠ migration := by
    rintro rfl
    cases ho
  rw [fixedPath?_eq h ha] at ho
  obtain rfl := Option.some.inj ho
  rw [copyPath_eq]
  refine copyOf h (endsWith_iff.2 ?_) fun hslash ↦ ?_
  · rw [String.toList_append]
    exact List.suffix_append _ _
  · rcases mem_fileName h hslash with hc | hc <;> revert hc <;> decide

end Artifact

/-- The route file and its copy. -/
theorem copyOf_routes (api : Bool) :
    ∃ file, Path.ofString (RouteFile.relativePath api) = ⟨0, ["routes", file]⟩ ∧
      Path.CopyOf ⟨0, ["routes", file]⟩ ⟨0, ["routes", file]⟩ := by
  have htarget (file : String) (hphp : Text.endsWith file ".php" = true)
      (hslash : '/' ∉ file.toList) : Path.IsTarget ⟨0, ["routes", file]⟩ :=
    ⟨["routes"], file, rfl, by simp, by decide, hphp, hslash⟩
  have hcopy (file : String) (hphp : Text.endsWith file ".php" = true)
      (hslash : '/' ∉ file.toList) : Path.CopyOf ⟨0, ["routes", file]⟩ ⟨0, ["routes", file]⟩ :=
    ⟨htarget file hphp hslash, htarget file hphp hslash, by simp, .inr ⟨file, rfl, rfl⟩⟩
  cases api
  · exact ⟨"web.php", by decide, hcopy _ (by decide) (by decide)⟩
  · exact ⟨"api.php", by decide, hcopy _ (by decide) (by decide)⟩

end Scaffold
