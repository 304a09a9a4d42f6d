import Scaffold.Disk.Glob
import Scaffold.Proofs.Ends
import Scaffold.Proofs.Disk.Changes

/-!
# Matches of patterns

A pattern of plain directories and one name pattern finds the names in one directory that match,
each once. It is refused where its directory is refused. What any pattern finds lies below the path
it is looked up from.
-/

namespace Scaffold

namespace NamePart

/-! ## Name patterns -/

/-- A character that means itself in a pattern. -/
def IsPlain (c : Char) : Prop := c ≠ '*' ∧ c ≠ '?' ∧ c ≠ '['

theorem readAfter_of_plain {s : List Char} (h : ∀ c ∈ s, IsPlain c) : readAfter 0 s = s.map char := by
  induction s with
  | nil => rfl
  | cons c rest ih =>
    obtain ⟨hstar, hone, hopen⟩ := h c (by simp)
    rw [readAfter, ih fun x hx ↦ h x (by simp [hx])]
    · rfl
    · rintro rfl
      exact hstar rfl
    · rintro rfl
      exact hone rfl
    · rintro rfl
      exact hopen rfl

theorem matchesName_map_char (cs s : List Char) : matchesName (cs.map char) s = true ↔ s = cs := by
  induction cs generalizing s with
  | nil => cases s <;> simp [matchesName]
  | cons c rest ih =>
    cases s with
    | nil => simp [matchesName]
    | cons x s => simp [matchesName, fits, ih]

theorem anySuffix_eq_true_iff (test : List Char → Bool) (s : List Char) :
    anySuffix test s = true ↔ ∃ t, t <:+ s ∧ test t = true := by
  induction s with
  | nil => simp [anySuffix]
  | cons c rest ih => simp [anySuffix, ih, List.suffix_cons_iff, or_and_right, exists_or]

/-- The star stands for what comes before an ending. -/
theorem matchesName_any_eq_endsWith (ending name : String) :
    matchesName (any :: ending.toList.map char) name.toList = Text.endsWith name ending := by
  rw [Bool.eq_iff_iff, matchesName, anySuffix_eq_true_iff, Text.endsWith, List.isPrefixOf_iff_prefix,
    List.reverse_prefix]
  simp [matchesName_map_char]

end NamePart

/-! ## Names without repetition -/

theorem nodup_eraseDups {α : Type} [BEq α] [LawfulBEq α] (l : List α) : l.eraseDups.Nodup := by
  induction hn : l.length using Nat.strong_induction_on generalizing l with
  | _ n ih =>
    cases l with
    | nil => simp
    | cons a rest =>
      rw [List.eraseDups_cons, List.nodup_cons, List.mem_eraseDups]
      refine ⟨by simp, ih _ ?_ _ rfl⟩
      have := List.length_filter_le (fun b ↦ !b == a) rest
      simp only [List.length_cons] at hn
      omega

namespace Disk

variable {d : Disk} {p q : Path} {qs : List Path} {names : List String} {parts : List NamePart}

/-! ## Globbing -/

theorem WellFormed.mem_entriesAt (hwf : d.WellFormed) (hanchor : d.Anchored p)
    (hopen : ¬d.Refuses p) :
    ∃ entries, d.entriesAt p = .ok entries ∧ ∀ e, e ∈ entries ↔
      d.node? (d.resolve p ++ [e.1]) = some e.2 := by
  rcases hwf.holds_cases hanchor (· == .dir) with hdir | ⟨-, hlong⟩
  · rcases hthere : (d.node? (d.resolve p)).any (· == .dir) with - | -
    · rw [hthere] at hdir
      refine ⟨[], by rw [entriesAt, isDir, hdir]; rfl, fun e ↦ ?_⟩
      simp only [List.not_mem_nil, false_iff]
      intro he
      rw [(hwf.parent _ _ _ he).1] at hthere
      cases hthere
    · rw [hthere] at hdir
      have hlocate := (isDir_eq_true_iff.1 hdir).1
      refine ⟨_, by rw [entriesAt, isDir, hdir, hlocate]; rfl, fun e ↦ ?_⟩
      simp only [List.mem_filterMap, mem_namesIn, Option.map_eq_some_iff]
      constructor
      · rintro ⟨name, -, n, hn, rfl⟩
        exact hn
      · intro he
        exact ⟨e.1, by rw [he]; rfl, e.2, he, rfl⟩
  · exact absurd hlong hopen

/-- The matches of a name pattern in a directory. -/
theorem WellFormed.mem_globFrom_pattern (hwf : d.WellFormed) (hanchor : d.Anchored p)
    (hopen : ¬d.Refuses p) (parts : List NamePart) :
    ∃ qs, d.globFrom false [.pattern parts] p = .ok qs ∧ ∀ q, q ∈ qs ↔ ∃ name, q = p.child name ∧
      (d.node? (d.resolve p ++ [name])).isSome ∧
        NamePart.matchesName parts name.toList = true := by
  obtain ⟨entries, hentries, hmem⟩ := hwf.mem_entriesAt hanchor hopen
  refine ⟨(entries.filter fun e ↦ NamePart.matchesName parts e.1.toList).map fun e ↦ p.child e.1,
    ?_, fun q ↦ ?_⟩
  · simp only [globFrom, hentries]
    change (Except.bind _ _) = _
    simp only [Except.bind, Bool.not_false, List.isEmpty_nil, Bool.not_true, Bool.or_self,
      Bool.true_or, Bool.true_and]
    have hone (e : String × Node) : (Except.ok [p.child e.1] : Except DiskError (List Path)) =
        pure [p.child e.1] := rfl
    simp only [hone, List.mapM_pure]
    rw [List.map_eq_flatMap (f := fun e : String × Node ↦ p.child e.1), List.flatMap_def]
    rfl
  · simp only [List.mem_map, List.mem_filter]
    constructor
    · rintro ⟨e, ⟨he, hmatch⟩, rfl⟩
      exact ⟨e.1, rfl, by rw [(hmem e).1 he]; rfl, hmatch⟩
    · rintro ⟨name, rfl, hsome, hmatch⟩
      obtain ⟨n, hn⟩ := Option.isSome_iff_exists.1 hsome
      exact ⟨(name, n), ⟨(hmem _).2 hn, hmatch⟩, rfl⟩

/-- The matches of a name pattern below directories that are named one after the other. -/
theorem WellFormed.mem_globFrom (hwf : d.WellFormed) {slashes : Nat} {dirs : List String}
    (names : List String) (hanchor : d.Anchored ⟨slashes, dirs ++ names⟩)
    (hopen : ¬d.Refuses ⟨slashes, dirs ++ names⟩)
    (hplain : ∀ part ∈ names, part ≠ ".." ∧ '\x00' ∉ part.toList) (parts : List NamePart) :
    ∃ qs, d.globFrom false (names.map .literal ++ [.pattern parts]) ⟨slashes, dirs⟩ = .ok qs ∧
      ∀ q, q ∈ qs ↔ ∃ name, q = ⟨slashes, dirs ++ names ++ [name]⟩ ∧
        (d.node? (d.resolve ⟨slashes, dirs ++ names⟩ ++ [name])).isSome ∧
          NamePart.matchesName parts name.toList = true := by
  induction names generalizing dirs with
  | nil =>
    rw [List.append_nil] at hanchor hopen ⊢
    exact hwf.mem_globFrom_pattern hanchor hopen parts
  | cons x rest ih =>
    have hassoc : dirs ++ x :: rest = dirs ++ [x] ++ rest := by simp
    rw [hassoc] at hanchor hopen ⊢
    have hplain' : ∀ part ∈ rest, part ≠ ".." ∧ '\x00' ∉ part.toList := fun part hpart ↦
      hplain part (List.mem_cons_of_mem _ hpart)
    have hanchor' : d.Anchored ⟨slashes, dirs ++ [x]⟩ :=
      ((anchoredFrom_append _ _ _ _).1 hanchor).1
    have hopen' : ¬d.Refuses ⟨slashes, dirs ++ [x]⟩ := fun h ↦
      hopen (h.append fun part hpart ↦ (hplain' part hpart).2)
    have hfits : (fun n : Node ↦ !(false || !(rest.map PathPart.literal ++
        [PathPart.pattern parts]).isEmpty) || n == .dir) = fun n ↦ n == .dir := by
      funext n
      simp
    rw [List.map_cons, List.cons_append, globFrom]
    simp only [hfits, Path.child]
    rcases hwf.holds_cases hanchor' (· == .dir) with hdir | ⟨-, hlong⟩
    · rcases hthere : (d.node? (d.resolve ⟨slashes, dirs ++ [x]⟩)).any (· == .dir) with - | -
      · rw [hdir, hthere]
        refine ⟨[], rfl, fun q ↦ ?_⟩
        simp only [List.not_mem_nil, false_iff]
        rintro ⟨name, -, hsome, -⟩
        rw [resolve_append _ _ _ fun h ↦ (hplain' _ h).1 rfl, List.append_assoc] at hsome
        rw [hwf.dir_of_below (by simp) hsome] at hthere
        cases hthere
      · rw [hdir, hthere]
        exact ih hanchor hopen hplain'
    · exact absurd hlong hopen'

/-- The matches of a pattern of plain directories and an ending, each once. -/
theorem WellFormed.mem_glob (hwf : d.WellFormed) {slashes : Nat} {dirs : List String}
    (names : List String) (hanchor : d.Anchored ⟨slashes, dirs ++ names⟩)
    (hopen : ¬d.Refuses ⟨slashes, dirs ++ names⟩)
    (hplain : ∀ part ∈ names, part ≠ ".." ∧ '\x00' ∉ part.toList) (parts : List NamePart) :
    ∃ qs, d.glob ⟨slashes, dirs⟩ ⟨names.map .literal ++ [.pattern parts], false⟩ = .ok qs ∧
      qs.Nodup ∧ ∀ q, q ∈ qs ↔ ∃ name, q = ⟨slashes, dirs ++ names ++ [name]⟩ ∧
        (d.node? (d.resolve ⟨slashes, dirs ++ names⟩ ++ [name])).isSome ∧
          NamePart.matchesName parts name.toList = true := by
  have hanchor' : d.Anchored ⟨slashes, dirs⟩ := ((anchoredFrom_append _ _ _ _).1 hanchor).1
  have hopen' : ¬d.Refuses ⟨slashes, dirs⟩ := fun h ↦
    hopen (h.append fun part hpart ↦ (hplain part hpart).2)
  obtain ⟨qs, hqs, hmem⟩ := hwf.mem_globFrom names hanchor hopen hplain parts
  rcases hwf.holds_cases hanchor' (· == .dir) with hdir | ⟨-, hlong⟩
  · rcases hthere : (d.node? (d.resolve ⟨slashes, dirs⟩)).any (· == .dir) with - | -
    · rw [hthere] at hdir
      refine ⟨[], by rw [glob, isDir, hdir]; rfl, List.nodup_nil, fun q ↦ ?_⟩
      simp only [List.not_mem_nil, false_iff]
      rintro ⟨name, -, hsome, -⟩
      rw [resolve_append _ _ _ fun h ↦ (hplain _ h).1 rfl, List.append_assoc] at hsome
      rw [hwf.dir_of_below (by simp) hsome] at hthere
      cases hthere
    · rw [hthere] at hdir
      refine ⟨qs.eraseDups.mergeSort Path.le, by rw [glob, isDir, hdir]; simp only [hqs]; rfl,
        ?_, fun q ↦ ?_⟩
      · exact (List.mergeSort_perm _ _).nodup_iff.2 (nodup_eraseDups qs)
      · rw [List.mem_mergeSort, List.mem_eraseDups, hmem]
  · exact absurd hlong hopen'

/-- Where a directory on the way is refused, so is the pattern. -/
theorem glob_of_refuses (hwf : d.WellFormed) {root : Path} {names : List String}
    (pattern : PathPattern) (hanchor : d.Anchored ⟨root.slashes, root.parts ++ names⟩)
    (h : d.Refuses ⟨root.slashes, root.parts ++ names⟩)
    (hfault : pathFault? ⟨root.slashes, root.parts ++ names⟩ ≠ some .nameTooLong)
    (hshort : ∀ part ∈ names, isTooLong part = false) :
    d.glob root pattern = .error ⟨.nameTooLong, root⟩ := by
  have hroot : d.locate root = .error .nameTooLong := hwf.refuses_of_append hanchor h hfault hshort
  have hask : d.isDir root = .error ⟨.nameTooLong, root⟩ := by
    simp [isDir, holds, nodeAt, hroot]
  rw [glob, hask]
  rfl

/-! ## Where matches are -/

/-- The path leads on from another one, through names without a NUL. -/
def Extends (p q : Path) : Prop :=
  ∃ rest, q = ⟨p.slashes, p.parts ++ rest⟩ ∧ ∀ part ∈ rest, '\x00' ∉ part.toList

theorem Extends.refl (p : Path) : Extends p p := ⟨[], by simp, by simp⟩

theorem Extends.trans {p q r : Path} (h : Extends p q) (h' : Extends q r) : Extends p r := by
  obtain ⟨rest, rfl, hrest⟩ := h
  obtain ⟨more, rfl, hmore⟩ := h'
  refine ⟨rest ++ more, by simp, ?_⟩
  intro part hpart
  exact (List.mem_append.1 hpart).elim (hrest part) (hmore part)

theorem extends_child {name : String} (h : '\x00' ∉ name.toList) : Extends p (p.child name) :=
  ⟨[name], rfl, by simpa using h⟩

theorem WellFormed.extends_of_mem_dirsFrom (hwf : d.WellFormed) (h : q ∈ d.dirsFrom p) :
    Extends p q := by
  rw [dirsFrom] at h
  split at h
  · cases h
  · rcases List.mem_cons.1 h with rfl | h
    · exact .refl _
    · obtain ⟨⟨l, n⟩, hmem, hq⟩ := List.mem_filterMap.1 h
      simp only [Option.ite_none_right_eq_some, Option.some.injEq] at hq
      obtain ⟨-, rfl⟩ := hq
      refine ⟨_, rfl, fun part hpart ↦ ?_⟩
      exact (hwf.nameable_of_mem hmem part (List.mem_of_mem_drop hpart)).noNul

theorem WellFormed.nameable_of_mem_entriesAt (hwf : d.WellFormed)
    {entries : List (String × Node)} (h : d.entriesAt p = .ok entries) :
    ∀ e ∈ entries, Nameable e.1 := by
  rw [entriesAt] at h
  rcases hdir : d.isDir p with e | - | -
  · rw [hdir] at h
    cases h
  · rw [hdir] at h
    obtain rfl := Except.ok.inj h
    nofun
  · rw [hdir, (isDir_eq_true_iff.1 hdir).1] at h
    obtain rfl := Except.ok.inj h
    intro e he
    obtain ⟨name, -, hname⟩ := List.mem_filterMap.1 he
    obtain ⟨n, hn, rfl⟩ := Option.map_eq_some_iff.1 hname
    exact (hwf.parent _ _ _ hn).2

/-- What a pattern finds from a path leads on from it. -/
theorem WellFormed.extends_of_mem_globFrom (hwf : d.WellFormed) {dirsOnly : Bool}
    {parts : List PathPart} (h : d.globFrom dirsOnly parts p = .ok qs) :
    ∀ q ∈ qs, Extends p q := by
  induction parts generalizing p qs with
  | nil =>
    obtain rfl := Except.ok.inj h
    intro q hq
    rw [List.mem_singleton.1 hq]
    exact .refl p
  | cons part rest ih =>
    have hmany {α : Type} {next : α → Path} {froms : List α} {found : List (List Path)}
        (hnext : ∀ a ∈ froms, Extends p (next a))
        (hfound : froms.mapM (fun a ↦ d.globFrom dirsOnly rest (next a)) = .ok found) :
        ∀ q ∈ found.flatten, Extends p q := by
      intro q hq
      obtain ⟨qs', hqs', hq⟩ := List.mem_flatten.1 hq
      obtain ⟨a, ha, hglob⟩ := exists_of_forall₂_of_mem_right (mapM_eq_ok_iff.1 hfound) hqs'
      exact (hnext a ha).trans (ih hglob q hq)
    cases part with
    | literal name =>
      rw [globFrom] at h
      obtain ⟨there, hthere, h⟩ := bind_eq_ok_iff.1 h
      cases there with
      | false =>
        obtain rfl := Except.ok.inj h
        nofun
      | true =>
        obtain ⟨n, hlocate, -⟩ := node?_of_holds hthere
        have hclean := ((pathFault?_eq_none_iff _).1 (pathFault?_of_locate hlocate)).1
        intro q hq
        exact (extends_child (hclean name (by simp [Path.child]))).trans (ih h q hq)
    | pattern name =>
      rw [globFrom] at h
      obtain ⟨entries, hentries, h⟩ := bind_eq_ok_iff.1 h
      obtain ⟨found, hfound, h⟩ := bind_eq_ok_iff.1 h
      obtain rfl := Except.ok.inj h
      apply hmany _ hfound
      intro e he
      exact extends_child (hwf.nameable_of_mem_entriesAt hentries e (List.mem_filter.1 he).1).noNul
    | anywhere =>
      rw [globFrom] at h
      obtain ⟨found, hfound, h⟩ := bind_eq_ok_iff.1 h
      obtain rfl := Except.ok.inj h
      exact hmany (fun q hq ↦ hwf.extends_of_mem_dirsFrom hq) hfound
    | above =>
      rw [globFrom] at h
      intro q hq
      exact (extends_child (by decide)).trans (ih h q hq)

/-- What a pattern finds below a path leads on from it, and the path is one that can be used. -/
theorem WellFormed.extends_of_mem_glob (hwf : d.WellFormed) {pattern : PathPattern}
    (h : d.glob p pattern = .ok qs) : ∀ q ∈ qs, Extends p q ∧ pathFault? p = none := by
  rw [glob] at h
  obtain ⟨there, hthere, h⟩ := bind_eq_ok_iff.1 h
  cases there with
  | false =>
    obtain rfl := Except.ok.inj h
    nofun
  | true =>
    obtain ⟨found, hfound, h⟩ := bind_eq_ok_iff.1 h
    obtain rfl := Except.ok.inj h
    intro q hq
    rw [List.mem_mergeSort, List.mem_eraseDups] at hq
    exact ⟨hwf.extends_of_mem_globFrom hfound q hq,
      pathFault?_of_locate (isDir_eq_true_iff.1 hthere).1⟩

end Disk

end Scaffold
