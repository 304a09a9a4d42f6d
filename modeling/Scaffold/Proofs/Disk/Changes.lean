import Scaffold.Proofs.Disk.WellFormed

/-!
# Changes of disks

What separates two states of a disk: directories may come at some locations, files may change at
others, and no directory goes. Paths that led somewhere before such a change lead there after it,
and a path that is refused stays refused.
-/

namespace Scaffold

/-- The content of a file. -/
def Node.content? : Node → Option ByteArray
  | .dir => none
  | .file content => some content

namespace Disk

variable {d d' d'' : Disk} {place l : Location} {parts : List String} {name : String} {n : Node}
  {content : ByteArray} {p : Path}

/-! ## Files -/

/-- The content of the file at a location. -/
def file? (d : Disk) (place : Location) : Option ByteArray := (d.node? place).bind Node.content?

theorem file?_eq_some_iff : d.file? l = some content ↔ d.node? l = some (.file content) := by
  rcases h : d.node? l with - | ⟨-⟩ | c <;> simp [file?, h, Node.content?]

theorem file?_eq_none_iff : d.file? l = none ↔ d.node? l = none ∨ d.node? l = some .dir := by
  rcases h : d.node? l with - | ⟨-⟩ | c <;> simp [file?, h, Node.content?]

theorem file?_congr (h : d'.node? l = d.node? l) : d'.file? l = d.file? l := by
  rw [file?, file?, h]

theorem node?_eq_of_file? (h : d.node? l ≠ some .dir) : d.node? l = (d.file? l).map .file := by
  rcases hn : d.node? l with - | ⟨-⟩ | c
  · simp [file?, hn]
  · exact absurd hn h
  · simp [file?, hn, Node.content?]

theorem readBytes_eq_ok_iff :
    d.readBytes p = .ok content ↔
      d.locate p = .ok (d.resolve p) ∧ d.file? (d.resolve p) = some content := by
  rw [readBytes, nodeAt, file?_eq_some_iff]
  rcases hl : d.locate p with fault | l
  · simp
  · obtain rfl := locate_eq_resolve hl
    rcases hn : d.node? (d.resolve p) with - | ⟨-⟩ | c <;> simp [hn]

theorem isFile_of_readBytes (h : d.readBytes p = .ok content) : d.isFile p = .ok true := by
  obtain ⟨hlocate, hfile⟩ := readBytes_eq_ok_iff.1 h
  simp [isFile, holds, nodeAt, hlocate, file?_eq_some_iff.1 hfile]

/-! ## Refused paths -/

/-- The disk refuses the path because it is too long, or because a name in it is. -/
def Refuses (d : Disk) (p : Path) : Prop := d.locate p = .error .nameTooLong

/-- A walk is refused at a name that is too long for the directory it would stand in. -/
theorem WellFormed.walk_eq_nameTooLong_iff (hwf : d.WellFormed)
    (hanchor : d.AnchoredFrom place parts) :
    d.walk place parts = .error .nameTooLong ↔ ∃ before part after,
      parts = before ++ part :: after ∧ part ≠ ".." ∧ isTooLong part = true ∧
        d.node? (follow place before) = some .dir := by
  constructor
  · intro h
    clear hanchor
    induction parts generalizing place with
    | nil => cases h
    | cons part rest ih =>
      rw [walk] at h
      split at h
      · cases h
      · cases h
      · next hdir =>
        by_cases hpart : part = ".."
        · subst hpart
          obtain ⟨before, x, after, rfl, hx, hlong, hnode⟩ := ih h
          exact ⟨".." :: before, x, after, rfl, hx, hlong, hnode⟩
        · rw [if_neg (by simpa using hpart)] at h
          split at h
          · next hlong => exact ⟨[], part, rest, rfl, hpart, hlong, hdir⟩
          · obtain ⟨before, x, after, rfl, hx, hlong, hnode⟩ := ih h
            refine ⟨part :: before, x, after, rfl, hx, hlong, ?_⟩
            rw [follow_down _ _ hpart]
            exact hnode
  · rintro ⟨before, part, after, rfl, hpart, hlong, hnode⟩
    have hbefore := ((anchoredFrom_append _ _ _ _).1 hanchor).1
    rw [walk_append, hwf.walk_eq_ok hbefore (by rw [hnode]; rfl)]
    change d.walk (follow place before) (part :: after) = _
    rw [walk_down _ _ _ hnode hpart, if_pos hlong]

theorem WellFormed.refuses_iff (hwf : d.WellFormed) (hanchor : d.Anchored p) :
    d.Refuses p ↔ pathFault? p = some .nameTooLong ∨
      pathFault? p = none ∧ ∃ before part after, p.parts = before ++ part :: after ∧
        part ≠ ".." ∧ isTooLong part = true ∧
          d.node? (follow (d.start p) before) = some .dir := by
  rw [Refuses, locate]
  rcases pathFault?_cases p with hfault | hfault | hfault
  · rw [hfault]
    simp only [reduceCtorEq, true_and, false_or]
    exact hwf.walk_eq_nameTooLong_iff hanchor
  · simp [hfault]
  · simp [hfault]

/-- A path to something that is there can only be refused because of its own length. -/
theorem WellFormed.refuses_iff_of_isSome (hwf : d.WellFormed) (hanchor : d.Anchored p)
    (h : (d.node? (d.resolve p)).isSome) : d.Refuses p ↔ pathFault? p = some .nameTooLong := by
  rw [Refuses, locate]
  rcases pathFault?_cases p with hfault | hfault | hfault
  · rw [hfault]
    have hwalk : d.walk (d.start p) p.parts = .ok (d.resolve p) := hwf.walk_eq_ok hanchor h
    rw [start] at hwalk
    simp [hwalk]
  · simp [hfault]
  · simp [hfault]

/-- A path that is refused among the directories of two disks is refused on one of them. -/
theorem Refuses.or {d₁ d₂ : Disk} (h : d.Refuses p) (hwf : d.WellFormed) (hanchor : d.Anchored p)
    (hwf₁ : d₁.WellFormed) (hanchor₁ : d₁.Anchored p) (hcwd₁ : d₁.cwd = d.cwd)
    (hwf₂ : d₂.WellFormed) (hanchor₂ : d₂.Anchored p) (hcwd₂ : d₂.cwd = d.cwd)
    (hdirs : ∀ l, d.node? l = some .dir → d₁.node? l = some .dir ∨ d₂.node? l = some .dir) :
    d₁.Refuses p ∨ d₂.Refuses p := by
  rw [hwf.refuses_iff hanchor] at h
  rw [hwf₁.refuses_iff hanchor₁, hwf₂.refuses_iff hanchor₂]
  rcases h with hlong | ⟨hfault, before, part, after, hparts, hpart, hlong, hdir⟩
  · exact .inl (.inl hlong)
  · rcases hdirs _ hdir with hdir | hdir
    · rw [start, ← hcwd₁, ← start] at hdir
      exact .inl (.inr ⟨hfault, before, part, after, hparts, hpart, hlong, hdir⟩)
    · rw [start, ← hcwd₂, ← start] at hdir
      exact .inr (.inr ⟨hfault, before, part, after, hparts, hpart, hlong, hdir⟩)

theorem resolve_congr {d₁ : Disk} (h : d₁.cwd = d.cwd) (p : Path) : d₁.resolve p = d.resolve p := by
  rw [resolve_eq_follow, resolve_eq_follow, start, start, h]

/-- What lies below a refused path is refused as well. -/
theorem Refuses.append {slashes : Nat} {a b : List String} (h : d.Refuses ⟨slashes, a⟩)
    (hb : ∀ part ∈ b, '\x00' ∉ part.toList) : d.Refuses ⟨slashes, a ++ b⟩ := by
  have hnul (hnul : pathFault? ⟨slashes, a ++ b⟩ = some .nul) :
      pathFault? ⟨slashes, a⟩ = some .nul := by
    obtain ⟨part, hpart, hmem⟩ := (pathFault?_eq_nul_iff _).1 hnul
    refine (pathFault?_eq_nul_iff _).2 ⟨part, ?_, hmem⟩
    exact (List.mem_append.1 hpart).resolve_right fun hpart ↦ hb part hpart hmem
  rcases pathFault?_cases ⟨slashes, a ++ b⟩ with hfault | hfault | hfault
  · have hwalk : d.walk (d.start ⟨slashes, a⟩) a = .error .nameTooLong := by
      rw [Refuses, locate_eq_walk (pathFault?_of_append hfault)] at h
      exact h
    rw [Refuses, locate_eq_walk hfault, walk_append]
    change (d.walk (d.start ⟨slashes, a⟩) a).bind _ = _
    rw [hwalk]
    rfl
  · rw [Refuses, locate, hnul hfault] at h
    cases h
  · rw [Refuses, locate, hfault]

/-- If names that are not too long are refused below a path, it is refused itself. -/
theorem WellFormed.refuses_of_append (hwf : d.WellFormed) {slashes : Nat} {a b : List String}
    (hanchor : d.Anchored ⟨slashes, a ++ b⟩) (h : d.Refuses ⟨slashes, a ++ b⟩)
    (hfault : pathFault? ⟨slashes, a ++ b⟩ ≠ some .nameTooLong)
    (hb : ∀ part ∈ b, isTooLong part = false) : d.Refuses ⟨slashes, a⟩ := by
  rw [hwf.refuses_iff hanchor] at h
  obtain ⟨hfault, before, part, after, hparts, hpart, hlong, hdir⟩ := h.resolve_left hfault
  have hanchor' : d.Anchored ⟨slashes, a⟩ := ((anchoredFrom_append _ _ _ _).1 hanchor).1
  rw [hwf.refuses_iff hanchor']
  refine .inr ⟨pathFault?_of_append hfault, before, part, ?_⟩
  rcases List.append_eq_append_iff.1 hparts with ⟨c, hc, hb'⟩ | ⟨c, hc, ha⟩
  · have := hb part (by simp [hb'])
    rw [hlong] at this
    cases this
  · cases c with
    | nil =>
      have := hb part (by simp only [List.nil_append] at ha; simp [← ha])
      rw [hlong] at this
      cases this
    | cons x rest =>
      obtain ⟨rfl, -⟩ := List.cons_eq_cons.1 ha
      exact ⟨rest, hc, hpart, hlong, hdir⟩

/-! ## Places where something may come -/

/-- A path that leads to no directory leads to a name in one. -/
theorem WellFormed.exists_child_of_locate (hwf : d.WellFormed) (hspelled : p.Spelled)
    (h : d.locate p = .ok l) (hfree : d.node? l ≠ some .dir) :
    ∃ q x, l = q ++ [x] ∧ d.node? q = some .dir ∧ Nameable x := by
  rcases hn : d.node? l with - | n
  · have hfault : pathFault? p = none ∧ d.walk (d.start p) p.parts = .ok l := by
      rw [locate] at h
      split at h
      · cases h
      · next hfault => exact ⟨hfault, h⟩
    have hnul : ∀ part ∈ p.parts, '\x00' ∉ part.toList := by
      intro part hpart hmem
      have := (pathFault?_eq_nul_iff p).2 ⟨part, hpart, hmem⟩
      rw [hfault.1] at this
      cases this
    have hwalk := hfault.2
    rcases List.eq_nil_or_concat p.parts with hparts | ⟨before, x, hparts⟩
    · rw [hparts] at hwalk
      obtain rfl := Except.ok.inj hwalk
      rw [start] at hfree
      split at hfree
      · exact absurd rfl hfree
      · exact absurd hwf.cwd hfree
    · rw [List.concat_eq_append] at hparts
      have hx : x ∈ p.parts := by simp [hparts]
      rw [hparts, walk_append] at hwalk
      rcases hbefore : d.walk (d.start p) before with fault | q
      · rw [hbefore] at hwalk
        cases hwalk
      · rw [hbefore] at hwalk
        change d.walk q [x] = .ok l at hwalk
        have hdir := dir_of_walk hwalk
        by_cases hup : x = ".."
        · subst hup
          rw [walk_up _ _ _ hdir] at hwalk
          obtain rfl := Except.ok.inj hwalk
          refine absurd ?_ hfree
          rcases eq_or_ne q [] with rfl | hq
          · rfl
          · refine hwf.isSome_of_prefix (List.dropLast_prefix q) ?_ (by rw [hdir]; rfl)
            intro heq
            have := congrArg List.length heq
            have := List.length_pos_of_ne_nil hq
            simp at *
            omega
        · rw [walk_down _ _ _ hdir hup] at hwalk
          split at hwalk
          · cases hwalk
          · next hshort =>
            obtain rfl := Except.ok.inj hwalk
            exact ⟨q, x, rfl, hdir, by simpa using hshort, hnul x hx, hspelled x hx⟩
  · rcases List.eq_nil_or_concat l with rfl | ⟨q, x, rfl⟩
    · exact absurd rfl hfree
    · rw [List.concat_eq_append] at hn ⊢
      have := hwf.parent _ _ _ hn
      exact ⟨q, x, rfl, this.1, this.2⟩

/-! ## Well-formedness under changes -/

/-- A disk stays well-formed when no directory goes and what comes has a name in a directory. -/
theorem WellFormed.of_nodes (hwf : d.WellFormed) (hcwd : d'.cwd = d.cwd)
    (hdirs : ∀ l, d.node? l = some .dir → d'.node? l = some .dir)
    (hnew : ∀ (place : Location) (name : String) (n : Node), d'.node? (place ++ [name]) = some n →
      (d.node? (place ++ [name])).isSome ∨ d'.node? place = some .dir ∧ Nameable name) :
    d'.WellFormed := by
  refine ⟨fun place name n hn ↦ ?_, by rw [hcwd]; exact hdirs _ hwf.cwd⟩
  rcases hnew place name n hn with hold | hnew
  · obtain ⟨m, hm⟩ := Option.isSome_iff_exists.1 hold
    have := hwf.parent _ _ _ hm
    exact ⟨hdirs _ this.1, this.2⟩
  · exact hnew

theorem WellFormed.put (hwf : d.WellFormed) (hdir : d.node? place = some .dir)
    (hname : Nameable name) (hkind : d.node? (place ++ [name]) = some .dir → n = .dir) :
    (d.put (place ++ [name]) n).WellFormed := by
  have hne : place ++ [name] ≠ [] := by simp
  have hdirs : ∀ l, d.node? l = some .dir → (d.put (place ++ [name]) n).node? l = some .dir := by
    intro l hl
    rw [node?_put _ _ _ hne]
    split
    · next h =>
      subst h
      rw [hkind hl]
    · exact hl
  refine hwf.of_nodes rfl hdirs fun q x m hm ↦ ?_
  rw [node?_put _ _ _ hne] at hm
  split at hm
  · next h =>
    obtain ⟨rfl, hx⟩ := List.append_inj' h rfl
    obtain rfl := List.singleton_inj.1 hx
    exact .inr ⟨hdirs _ hdir, hname⟩
  · exact .inl (by rw [hm]; rfl)

theorem WellFormed.erase (hwf : d.WellFormed) (hfile : d.node? place = some (.file content)) :
    (d.erase place).WellFormed := by
  refine hwf.of_nodes rfl (fun l hl ↦ ?_) fun q x m hm ↦ ?_
  · rcases eq_or_ne l [] with rfl | hne
    · rfl
    · rw [node?_erase _ _ hne, if_neg, hl]
      rintro rfl
      rw [hl] at hfile
      cases hfile
  · rw [node?_erase _ _ (by simp)] at hm
    split at hm
    · cases hm
    · exact .inl (by rw [hm]; rfl)

/-! ## Changes -/

/-- Directories come only at the locations in `dirs`, files change only at those in `files`, and
no directory goes. -/
structure Changes (dirs files : Location → Prop) (d d' : Disk) : Prop where
  cwd : d'.cwd = d.cwd
  wellFormed : d'.WellFormed
  keeps : ∀ l, d.node? l = some .dir → d'.node? l = some .dir
  comes : ∀ l, d'.node? l = some .dir → d.node? l = some .dir ∨ dirs l
  same : ∀ l, ¬files l → d'.file? l = d.file? l

variable {dirs files dirs' files' : Location → Prop}

theorem Changes.refl (hwf : d.WellFormed) : Changes dirs files d d :=
  ⟨rfl, hwf, fun _ ↦ id, fun _ ↦ .inl, fun _ _ ↦ rfl⟩

theorem Changes.trans (h : Changes dirs files d d') (h' : Changes dirs files d' d'') :
    Changes dirs files d d'' where
  cwd := h'.cwd.trans h.cwd
  wellFormed := h'.wellFormed
  keeps l hl := h'.keeps l (h.keeps l hl)
  comes l hl := (h'.comes l hl).elim (h.comes l) .inr
  same l hl := (h'.same l hl).trans (h.same l hl)

theorem Changes.mono (h : Changes dirs files d d') (hdirs : ∀ l, dirs l → dirs' l)
    (hfiles : ∀ l, files l → files' l) : Changes dirs' files' d d' where
  cwd := h.cwd
  wellFormed := h.wellFormed
  keeps := h.keeps
  comes l hl := (h.comes l hl).imp_right (hdirs l)
  same l hl := h.same l fun hfile ↦ hl (hfiles l hfile)

theorem Changes.put_file (hwf : d.WellFormed) (hdir : d.node? place = some .dir)
    (hname : Nameable name) (hfree : d.node? (place ++ [name]) ≠ some .dir) :
    Changes dirs (· = place ++ [name]) d (d.put (place ++ [name]) (.file content)) := by
  have hne : place ++ [name] ≠ [] := by simp
  have hnode (l : Location) (hl : l ≠ place ++ [name]) :
      (d.put (place ++ [name]) (.file content)).node? l = d.node? l := by
    rw [node?_put _ _ _ hne, if_neg hl]
  refine ⟨rfl, hwf.put hdir hname fun h ↦ absurd h hfree, fun l hl ↦ ?_, fun l hl ↦ ?_,
    fun l hl ↦ file?_congr (hnode l hl)⟩
  · rw [hnode l, hl]
    rintro rfl
    exact hfree hl
  · rw [hnode l] at hl
    · exact .inl hl
    · rintro rfl
      rw [node?_put _ _ _ hne, if_pos rfl] at hl
      cases hl

theorem Changes.put_dir (hwf : d.WellFormed) (hdir : d.node? place = some .dir)
    (hname : Nameable name) (hfree : d.node? (place ++ [name]) = none) :
    Changes (· = place ++ [name]) files d (d.put (place ++ [name]) .dir) := by
  have hne : place ++ [name] ≠ [] := by simp
  have hnode (l : Location) (hl : l ≠ place ++ [name]) :
      (d.put (place ++ [name]) .dir).node? l = d.node? l := by
    rw [node?_put _ _ _ hne, if_neg hl]
  refine ⟨rfl, hwf.put hdir hname fun _ ↦ rfl, fun l hl ↦ ?_, fun l hl ↦ ?_, fun l _ ↦ ?_⟩
  · rw [hnode l, hl]
    rintro rfl
    rw [hfree] at hl
    cases hl
  · rcases eq_or_ne l (place ++ [name]) with rfl | h
    · exact .inr rfl
    · rw [hnode l h] at hl
      exact .inl hl
  · rcases eq_or_ne l (place ++ [name]) with rfl | h
    · rw [file?_eq_none_iff.2 (.inl hfree), file?_eq_none_iff, node?_put _ _ _ hne, if_pos rfl]
      exact .inr rfl
    · exact file?_congr (hnode l h)

theorem Changes.erase (hwf : d.WellFormed) (hfile : d.node? place = some (.file content)) :
    Changes dirs (· = place) d (d.erase place) := by
  have hnode (l : Location) (hl : l ≠ place) : (d.erase place).node? l = d.node? l := by
    rcases eq_or_ne l [] with rfl | hne
    · rfl
    · rw [node?_erase _ _ hne, if_neg hl]
  refine ⟨rfl, hwf.erase hfile, fun l hl ↦ ?_, fun l hl ↦ ?_, fun l hl ↦ file?_congr (hnode l hl)⟩
  · rw [hnode l, hl]
    rintro rfl
    rw [hl] at hfile
    cases hfile
  · rcases eq_or_ne l [] with rfl | hne
    · exact .inl rfl
    · rw [node?_erase _ _ hne] at hl
      split at hl
      · cases hl
      · exact .inl hl

/-! ## Paths after a change -/

/-- A walk comes by directories only, so it leads where it led as long as those on the way stay. -/
theorem walk_eq_ok_of_keeps (hwalk : d.walk place parts = .ok l)
    (hkeeps : ∀ a, a <+: parts → d.node? (follow place a) = some .dir →
      d'.node? (follow place a) = some .dir) : d'.walk place parts = .ok l := by
  induction parts generalizing place with
  | nil => exact hwalk
  | cons part rest ih =>
    have hdir := dir_of_walk hwalk
    have hdir' : d'.node? place = some .dir := hkeeps [] List.nil_prefix hdir
    have hrest (next : Location) (hnext : ∀ a, follow place (part :: a) = follow next a)
        (a : List String) (ha : a <+: rest) (h : d.node? (follow next a) = some .dir) :
        d'.node? (follow next a) = some .dir := by
      rw [← hnext] at h ⊢
      exact hkeeps _ (List.cons_prefix_cons.2 ⟨rfl, ha⟩) h
    by_cases hpart : part = ".."
    · subst hpart
      rw [walk_up _ _ _ hdir] at hwalk
      rw [walk_up _ _ _ hdir']
      exact ih hwalk (hrest _ (follow_up place))
    · rw [walk_down _ _ _ hdir hpart] at hwalk
      rw [walk_down _ _ _ hdir' hpart]
      split at hwalk
      · cases hwalk
      · next hshort =>
        rw [if_neg hshort]
        exact ih hwalk (hrest _ fun a ↦ follow_down place a hpart)

theorem locate_eq_ok_of_keeps (hcwd : d'.cwd = d.cwd)
    (hkeeps : ∀ l, d.node? l = some .dir → d'.node? l = some .dir)
    (hlocate : d.locate p = .ok l) : d'.locate p = .ok l := by
  rw [locate] at hlocate ⊢
  rw [hcwd]
  split at hlocate
  · cases hlocate
  · exact walk_eq_ok_of_keeps hlocate fun _ _ ↦ hkeeps _

variable (h : Changes dirs files d d')

include h

theorem Changes.start_eq (p : Path) : d'.start p = d.start p := by
  rw [start, start, h.cwd]

theorem Changes.resolve_eq (p : Path) : d'.resolve p = d.resolve p := by
  rw [resolve_eq_follow, resolve_eq_follow, h.start_eq]

/-- Where nothing stands after files have changed elsewhere, nothing stood before. -/
theorem Changes.node?_eq_none (hnone : d'.node? l = none) (hl : ¬files l := by exact id) :
    d.node? l = none := by
  have hfile := h.same l hl
  rw [file?_eq_none_iff.2 (.inl hnone), eq_comm, file?_eq_none_iff] at hfile
  refine hfile.resolve_right fun hdir ↦ ?_
  rw [h.keeps l hdir] at hnone
  cases hnone

/-- Where nothing changes stands what stood there. -/
theorem Changes.node?_eq (hdir : ¬dirs l) (hl : ¬files l) : d'.node? l = d.node? l := by
  by_cases hstands : d.node? l = some .dir
  · rw [hstands, h.keeps l hstands]
  · have hstands' : d'.node? l ≠ some .dir := fun hn ↦ (h.comes l hn).elim hstands hdir
    rw [node?_eq_of_file? hstands, node?_eq_of_file? hstands', h.same l hl]

theorem Changes.anchored (hanchor : d.Anchored p) : d'.Anchored p := by
  rw [Anchored, h.start_eq]
  exact AnchoredFrom.mono hanchor h.keeps

theorem Changes.locate_eq_ok (hlocate : d.locate p = .ok l) : d'.locate p = .ok l :=
  locate_eq_ok_of_keeps h.cwd h.keeps hlocate

/-- A file is read as before if it is the same. -/
theorem Changes.readBytes (hfile : ¬files (d.resolve p)) (hread : d.readBytes p = .ok content) :
    d'.readBytes p = .ok content := by
  obtain ⟨hlocate, hcontent⟩ := readBytes_eq_ok_iff.1 hread
  refine readBytes_eq_ok_iff.2 ⟨?_, ?_⟩
  · rw [h.resolve_eq]
    exact h.locate_eq_ok hlocate
  · rw [h.resolve_eq, h.same _ hfile, hcontent]

theorem Changes.refuses (hwf : d.WellFormed) (hanchor : d.Anchored p) (hrefuses : d.Refuses p) :
    d'.Refuses p := by
  have := hrefuses.or hwf hanchor h.wellFormed (h.anchored hanchor) h.cwd h.wellFormed
    (h.anchored hanchor) h.cwd fun l hl ↦ .inl (h.keeps l hl)
  exact this.elim id id

end Disk

end Scaffold
