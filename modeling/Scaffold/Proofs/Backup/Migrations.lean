import Scaffold.Proofs.Backup.Targets

/-!
# Migrations on a disk

The names of a table's migrations are those with its ending. They are listed with the least first,
and the pattern of the table finds the same ones.
-/

namespace Scaffold

namespace Migration

open Disk

/-- The name of a table has no characters that mean something in a path or a pattern. -/
def IsTable (table : String) : Prop := ∀ c ∈ table.toList, c.isAlphanum = true ∨ c = '_'

theorem isTable_table (name : String) : IsTable (Name.table name) :=
  Name.isAlphanum_of_mem_snake

variable {d : Disk} {root : Path} {table name : String}

theorem toList_ending (table : String) :
    (ending table).toList = "_create_".toList ++ (table.toList ++ "_table.php".toList) := by
  have htext (s : String) : toString s = s := rfl
  simp only [ending, htext, String.toList_append, List.append_assoc]

theorem endsWith_php (h : Text.endsWith name (ending table) = true) :
    Text.endsWith name ".php" = true := by
  rw [endsWith_iff] at h ⊢
  refine List.IsSuffix.trans ?_ h
  rw [toList_ending]
  exact ⟨"_create_".toList ++ (table.toList ++ "_table".toList), by simp⟩

theorem endsWith_newName (table : String) (m : Moment) :
    Text.endsWith (newName table m) (ending table) = true := by
  rw [endsWith_iff, newName, String.toList_append]
  exact List.suffix_append _ _

theorem IsTable.mem_ending (h : IsTable table) {c : Char} (hc : c ∈ (ending table).toList) :
    c.isAlphanum = true ∨ c = '_' ∨ c = '.' := by
  have hfixed : ∀ c ∈ "_create_".toList ++ "_table.php".toList,
      c.isAlphanum = true ∨ c = '_' ∨ c = '.' := by simp
  rw [toList_ending] at hc
  simp only [List.mem_append] at hc
  rcases hc with hc | hc | hc
  · exact hfixed c (List.mem_append_left _ hc)
  · exact (h c hc).imp_right .inl
  · exact hfixed c (List.mem_append_right _ hc)

theorem IsTable.slash_not_mem_ending (h : IsTable table) : '/' ∉ (ending table).toList := fun hmem ↦ by
  have := h.mem_ending hmem
  revert this
  decide

theorem IsTable.isPlain_of_mem_ending (h : IsTable table) :
    ∀ c ∈ (ending table).toList, NamePart.IsPlain c := by
  intro c hc
  have hchar := h.mem_ending hc
  refine ⟨?_, ?_, ?_⟩ <;> rintro rfl <;> revert hchar <;> decide

/-- A migration is a target. -/
theorem copyOf (hphp : Text.endsWith name ".php" = true) (hslash : '/' ∉ name.toList) :
    Path.CopyOf (BackupStore.copyPath .migration table (folder.child name)) (folder.child name) := by
  have hchild : folder.child name = ⟨0, Artifact.migration.dirs "" ++ [name]⟩ := rfl
  have hcopy : BackupStore.copyPath .migration table (folder.child name) =
      ⟨0, Artifact.migration.copyDirs "" ++ [name]⟩ := by
    rw [hchild, Artifact.copyPath_eq]
    rfl
  rw [hcopy, hchild]
  exact Artifact.copyOf (.inl rfl) hphp hslash

/-! ## Patterns -/

theorem pathPattern_eq (table : String) :
    pathPattern table = Path.toString ⟨0, ["database", "migrations", "*" ++ ending table]⟩ := rfl

theorem pathPattern_ne (table : String) : pathPattern table ≠ "" := by
  intro h
  have hlist := congrArg String.toList h
  rw [pathPattern_eq, toString_of_ne_nil _ (by simp)] at hlist
  simp [String.intercalate_cons_cons] at hlist

/-- A table is known by its pattern. -/
theorem pathPattern_injective {table' : String} (h : pathPattern table = pathPattern table') :
    table = table' := by
  have hne (x : String) : ["database", "migrations", x] ≠ [] := by simp
  have hlist := congrArg String.toList h
  simp only [pathPattern_eq, toString_of_ne_nil _ (hne _), String.toList_append,
    String.toList_intercalate, List.map_cons, List.map_nil, toList_ending] at hlist
  exact String.toList_inj.1 (by simpa using hlist)

/-- What the pattern of a table's migrations asks for. -/
theorem IsTable.read_pathPattern (h : IsTable table) :
    PathPattern.read (pathPattern table) = .ok ⟨["database", "migrations"].map .literal ++
      [.pattern (.any :: (ending table).toList.map .char)], false⟩ := by
  have hplain := h.isPlain_of_mem_ending
  have hstar : ("*" ++ ending table).toList = '*' :: (ending table).toList := by simp
  have hno : '*' ∉ (ending table).toList := fun hmem ↦ (hplain _ hmem).1 rfl
  have hinside : Text.contains ("*" ++ ending table) "**" = false := by
    rw [← Bool.not_eq_true, Text.contains_iff, hstar, List.infix_cons_iff, not_or]
    refine ⟨fun hpre ↦ hno ?_, fun hin ↦ hno (hin.subset (by decide))⟩
    exact ((List.cons_prefix_cons.1 hpre).2.subset (by decide))
  have hcomponent : PathPart.ofComponent ("*" ++ ending table) =
      .ok (.pattern (.any :: (ending table).toList.map .char)) := by
    have hany : ("*" ++ ending table).toList.any (fun c ↦ c == '*' || c == '?' || c == '[') =
        true := by simp [hstar]
    have hread : NamePart.read ("*" ++ ending table) =
        .any :: (ending table).toList.map .char := by
      rw [NamePart.read, hstar, NamePart.readAfter, NamePart.readAfter_of_plain hplain]
    have hstars : ("*" ++ ending table == "**") = false := by
      rw [beq_eq_false_iff_ne]
      intro heq
      have hlist := congrArg String.toList heq
      rw [hstar] at hlist
      exact hno (by rw [(List.cons.inj hlist).2]; decide)
    have habove : ("*" ++ ending table == "..") = false := by
      rw [beq_eq_false_iff_ne]
      intro heq
      have hlist := congrArg String.toList heq
      rw [hstar] at hlist
      exact absurd (List.cons.inj hlist).1 (by decide)
    rw [PathPart.ofComponent, hstars, habove, hinside, hany, hread]
    rfl
  have hpath : Path.ofString (pathPattern table) =
      ⟨0, ["database", "migrations", "*" ++ ending table]⟩ := by
    rw [pathPattern_eq]
    refine Path.ofString_toString (by simp) ?_
    simp only [List.forall_mem_cons, List.not_mem_nil, false_imp_iff, implies_true, and_true]
    refine ⟨by decide, by decide, ?_, ?_, ?_⟩
    · rw [hstar, List.mem_cons, not_or]
      exact ⟨by decide, h.slash_not_mem_ending⟩
    · rintro heq
      have := congrArg String.toList heq
      rw [hstar] at this
      cases this
    · rintro heq
      have hlist := congrArg String.toList heq
      rw [hstar] at hlist
      exact absurd (List.cons.inj hlist).1 (by decide)
  have hdirs : Text.endsWith (pathPattern table) "/" = false := by
    rw [← Bool.not_eq_true, endsWith_iff]
    intro hslash
    have hending : (ending table).toList <:+ (pathPattern table).toList := by
      have htext : pathPattern table = "database/migrations/*" ++ ending table := by
        rw [pathPattern_eq, toString_of_ne_nil _ (by simp), ← String.toList_inj]
        simp
      rw [htext, String.toList_append]
      exact List.suffix_append _ _
    have hphp := endsWith_iff.1 (endsWith_php (endsWith_iff.2 hending))
    have := List.suffix_of_suffix_length_le hslash hphp (by decide)
    revert this
    decide
  have hmapM : ["database", "migrations", "*" ++ ending table].mapM PathPart.ofComponent =
      .ok [.literal "database", .literal "migrations",
        .pattern (.any :: (ending table).toList.map .char)] := by
    have hdatabase : PathPart.ofComponent "database" = .ok (.literal "database") := by decide
    have hmigrations : PathPart.ofComponent "migrations" = .ok (.literal "migrations") := by decide
    rw [mapM_eq_ok_iff]
    exact .cons hdatabase (.cons hmigrations (.cons hcomponent .nil))
  rw [PathPattern.read]
  simp only [hpath, hdirs, hmapM]
  rfl

/-! ## Finding -/

theorem anchored_folder (hanchor : d.Anchored root) : d.Anchored (root ++ folder) := by
  change d.AnchoredFrom (d.start root) (root.parts ++ ["database", "migrations"])
  exact (anchoredFrom_append _ _ _ _).2 ⟨hanchor, anchoredFrom_of_plain _ _ (by decide)⟩

theorem resolve_folder (d : Disk) (root : Path) :
    d.resolve (root ++ folder) = d.resolve root ++ ["database", "migrations"] :=
  resolve_append d root.slashes root.parts (by decide)

theorem isTarget_child (hphp : Text.endsWith name ".php" = true) (hslash : '/' ∉ name.toList) :
    (folder.child name).IsTarget :=
  ⟨["database", "migrations"], name, rfl, by simp, by decide, hphp, hslash⟩

theorem resolve_child (d : Disk) (root : Path) (name : String) :
    d.resolve (root ++ folder) ++ [name] = d.resolve root ++ (folder.child name).parts := by
  rw [resolve_folder, List.append_assoc]
  rfl

theorem resolve_folder_child (hphp : Text.endsWith name ".php" = true) (d : Disk) (root : Path) :
    d.resolve (root ++ folder.child name) = d.resolve (root ++ folder) ++ [name] := by
  have hchild : root ++ folder.child name = ⟨root.slashes, (root ++ folder).parts ++ [name]⟩ := by
    rw [Path.append_eq root (show (folder.child name).slashes = 0 from rfl),
      Path.append_eq root (show folder.slashes = 0 from rfl), List.append_assoc]
    rfl
  rw [hchild]
  refine resolve_append _ _ _ fun hdots ↦ ?_
  exact ne_of_endsWith hphp (.inr (by decide)) (List.mem_singleton.1 hdots).symm

/-- What is listed ends as the migrations of the table do, and stands in the folder. -/
theorem mem_existing {names : List String} (h : existing d root table = .ok names) {name : String}
    (hname : name ∈ names) :
    d.isDir (root ++ folder) = .ok true ∧
      (d.node? (d.resolve (root ++ folder) ++ [name])).isSome ∧
        Text.endsWith name (ending table) = true := by
  rw [existing] at h
  rcases hdir : d.isDir (root ++ folder) with e | ⟨⟩ | ⟨⟩
  · rw [hdir] at h
    cases h
  · rw [hdir] at h
    obtain rfl := Except.ok.inj h
    simp at hname
  · rw [hdir] at h
    obtain rfl := Except.ok.inj h
    rw [List.mem_mergeSort, List.mem_filter, list, (isDir_eq_true_iff.1 hdir).1,
      mem_namesIn] at hname
    exact ⟨rfl, hname⟩

/-- The migrations of a table are listed in order, unless their folder is refused. -/
theorem existing_eq_ok (hwf : d.WellFormed) (hanchor : d.Anchored root) {names : List String}
    (h : existing d root table = .ok names) :
    ¬d.Refuses (root ++ folder) ∧
      (∀ name, name ∈ names ↔ (d.node? (d.resolve (root ++ folder) ++ [name])).isSome ∧
        Text.endsWith name (ending table) = true) ∧
      names.Pairwise (· ≤ ·) := by
  rw [existing] at h
  rcases hwf.holds_cases (anchored_folder hanchor) (· == .dir) with hdir | ⟨hdir, -⟩
  · refine ⟨fun hrefuses ↦ ?_, ?_⟩
    · rw [holds, nodeAt, hrefuses] at hdir
      cases hdir
    rcases hthere : (d.node? (d.resolve (root ++ folder))).any (· == .dir) with - | -
    · rw [isDir, hdir, hthere] at h
      obtain rfl := Except.ok.inj h
      refine ⟨fun name ↦ ?_, .nil⟩
      simp only [List.not_mem_nil, false_iff, not_and_or]
      left
      intro hsome
      rw [hwf.dir_of_below (by simp) hsome] at hthere
      cases hthere
    · rw [hthere] at hdir
      have hlist : d.list (root ++ folder) = d.namesIn (d.resolve (root ++ folder)) := by
        rw [list, (isDir_eq_true_iff.1 hdir).1]
      rw [isDir, hdir, hlist] at h
      obtain rfl := Except.ok.inj h
      refine ⟨fun name ↦ ?_, ?_⟩
      · rw [List.mem_mergeSort, List.mem_filter, mem_namesIn]
      · have hsorted : List.Pairwise (fun x y : String ↦ decide (x ≤ y) = true)
            ((d.namesIn (d.resolve (root ++ folder))).filter
              (Text.endsWith · (ending table))).mergeSort :=
          List.pairwise_mergeSort
            (fun x y z hxy hyz ↦ by simpa using le_trans (by simpa using hxy) (by simpa using hyz))
            (fun x y ↦ by simpa using le_total x y) _
        exact hsorted.imp fun hxy ↦ by simpa using hxy
  · rw [isDir, hdir] at h
    cases h

/-- The pattern of a table finds its migrations, each once. -/
theorem exists_glob_eq_ok (hwf : d.WellFormed) (hanchor : d.Anchored root)
    (hopen : ¬d.Refuses (root ++ folder)) (table : String) :
    ∃ qs, d.glob root ⟨["database", "migrations"].map .literal ++
        [.pattern (.any :: (ending table).toList.map .char)], false⟩ = .ok qs ∧
      qs.Nodup ∧ ∀ q, q ∈ qs ↔ ∃ name, q = root ++ folder.child name ∧
        (d.node? (d.resolve (root ++ folder) ++ [name])).isSome ∧
          Text.endsWith name (ending table) = true := by
  obtain ⟨qs, hqs, hnodup, hmem⟩ := hwf.mem_glob ["database", "migrations"]
    (anchored_folder hanchor) hopen (by decide) (.any :: (ending table).toList.map .char)
  refine ⟨qs, hqs, hnodup, fun q ↦ (hmem q).trans (exists_congr fun name ↦ ?_)⟩
  rw [NamePart.matchesName_any_eq_endsWith]
  have hchild : root ++ folder.child name =
      ⟨root.slashes, root.parts ++ ["database", "migrations"] ++ [name]⟩ := by
    rw [List.append_assoc]
    rfl
  rw [hchild]
  rfl

end Migration

end Scaffold
