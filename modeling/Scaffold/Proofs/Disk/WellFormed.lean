import Mathlib
import Scaffold.Disk.Operations

/-!
# Well-formed disks

On a well-formed disk everything stands in a directory and has a name that a disk can hold. There a
path leads to what stands at the location it names, provided that the path is anchored: its steps
upwards leave directories that are there.
-/

namespace Scaffold

/-- No name of the path holds a slash. -/
def Path.Spelled (p : Path) : Prop := ∀ part ∈ p.parts, '/' ∉ part.toList

theorem Path.mem_parts_child_name {p q : Path} {part : String} (h : part ∈ (p.child q.name).parts) :
    part ∈ p.parts ∨ part ∈ q.parts ∨ part = "" := by
  rcases List.mem_append.1 h with hpart | hpart
  · exact .inl hpart
  · rw [List.mem_singleton.1 hpart, name]
    rcases hlast : q.parts.getLast? with - | name
    · exact .inr (.inr rfl)
    · exact .inr (.inl (List.mem_of_getLast? hlast))

theorem Path.Spelled.child_name {p q : Path} (hp : p.Spelled) (hq : q.Spelled) :
    (p.child q.name).Spelled := by
  intro part hpart
  rcases Path.mem_parts_child_name hpart with hpart | hpart | rfl
  · exact hp part hpart
  · exact hq part hpart
  · simp

namespace Disk

/-- A name that can stand on a disk. -/
structure Nameable (name : String) : Prop where
  short : isTooLong name = false
  noNul : '\x00' ∉ name.toList
  noSlash : '/' ∉ name.toList

/-- Everything stands in a directory, the working directory among it. -/
structure WellFormed (d : Disk) : Prop where
  parent : ∀ (place : Location) (name : String) (n : Node), d.node? (place ++ [name]) = some n →
    d.node? place = some .dir ∧ Nameable name
  cwd : d.node? d.cwd = some .dir

variable {d d' : Disk} {place l : Location} {parts : List String} {name : String} {n : Node}

theorem WellFormed.isSome_of_prefix (hwf : d.WellFormed) {a b : Location} (hpre : a <+: b)
    (hne : a ≠ b) (h : (d.node? b).isSome) : d.node? a = some .dir := by
  obtain ⟨rest, rfl⟩ := hpre
  induction rest using List.reverseRecOn with
  | nil => simp at hne
  | append_singleton rest x ih =>
    obtain ⟨n, hn⟩ := Option.isSome_iff_exists.1 h
    rw [← List.append_assoc] at hn
    have hdir := (hwf.parent _ _ _ hn).1
    by_cases hrest : rest = []
    · simpa [hrest] using hdir
    · exact ih (by simp [hrest]) (by simp [hdir])

/-- What stands below a location stands in a directory there. -/
theorem WellFormed.dir_of_below (hwf : d.WellFormed) {a b : Location} (hb : b ≠ [])
    (h : (d.node? (a ++ b)).isSome) : d.node? a = some .dir :=
  hwf.isSome_of_prefix (List.prefix_append a b) (by simpa using hb) h

/-! ## Following paths -/

/-- Where components lead from a location. -/
def follow (place : Location) (parts : List String) : Location :=
  parts.foldl (fun place part ↦ if part == ".." then place.dropLast else place ++ [part]) place

/-- Where a path starts. -/
def start (d : Disk) (p : Path) : Location := if p.isAbsolute then [] else d.cwd

theorem resolve_eq_follow (d : Disk) (p : Path) : d.resolve p = follow (d.start p) p.parts := rfl

@[simp] theorem follow_nil (place : Location) : follow place [] = place := rfl

theorem follow_append (place : Location) (a b : List String) :
    follow place (a ++ b) = follow (follow place a) b := List.foldl_append

theorem follow_up (place : Location) (rest : List String) :
    follow place (".." :: rest) = follow place.dropLast rest := rfl

theorem follow_down (place : Location) {part : String} (rest : List String) (h : part ≠ "..") :
    follow place (part :: rest) = follow (place ++ [part]) rest := by
  simp [follow, h]

theorem follow_of_plain (place : Location) (h : ".." ∉ parts) :
    follow place parts = place ++ parts := by
  induction parts generalizing place with
  | nil => simp
  | cons part rest ih =>
    rw [List.mem_cons, not_or] at h
    rw [follow_down _ _ (Ne.symm h.1), ih _ h.2, List.append_assoc, List.singleton_append]

/-- Components without steps upwards lead down from where a path leads. -/
theorem resolve_append (d : Disk) (slashes : Nat) (a : List String) {b : List String}
    (h : ".." ∉ b) : d.resolve ⟨slashes, a ++ b⟩ = d.resolve ⟨slashes, a⟩ ++ b := by
  rw [resolve_eq_follow, follow_append, follow_of_plain _ h]
  rfl

theorem walk_up (d : Disk) (place : Location) (rest : List String)
    (h : d.node? place = some .dir) : d.walk place (".." :: rest) = d.walk place.dropLast rest := by
  simp [walk, h]

theorem walk_down (d : Disk) (place : Location) {part : String} (rest : List String)
    (h : d.node? place = some .dir) (hpart : part ≠ "..") :
    d.walk place (part :: rest) =
      if isTooLong part then .error .nameTooLong else d.walk (place ++ [part]) rest := by
  simp [walk, h, hpart]

/-- A walk that takes a step starts in a directory. -/
theorem dir_of_walk {part : String} {rest : List String}
    (h : d.walk place (part :: rest) = .ok l) : d.node? place = some .dir := by
  rw [walk] at h
  split at h
  · cases h
  · cases h
  · assumption

theorem walk_eq_follow (h : d.walk place parts = .ok l) : l = follow place parts := by
  induction parts generalizing place with
  | nil => exact (Except.ok.inj h).symm
  | cons part rest ih =>
    have hdir := dir_of_walk h
    by_cases hpart : part = ".."
    · subst hpart
      rw [walk_up _ _ _ hdir] at h
      exact ih h
    · rw [walk_down _ _ _ hdir hpart] at h
      rw [follow_down _ _ hpart]
      split at h
      · cases h
      · exact ih h

theorem walk_append (d : Disk) (place : Location) (a b : List String) :
    d.walk place (a ++ b) = (d.walk place a).bind fun l ↦ d.walk l b := by
  induction a generalizing place with
  | nil => rfl
  | cons part rest ih =>
    rw [List.cons_append, walk, walk]
    rcases d.node? place with - | ⟨-⟩ | c
    · rfl
    · simp only
      split
      · exact ih _
      · split
        · rfl
        · exact ih _
    · rfl

/-- The steps upwards leave directories that are there. -/
def AnchoredFrom (d : Disk) : Location → List String → Prop
  | _, [] => True
  | place, part :: rest =>
    if part = ".." then d.node? place = some .dir ∧ d.AnchoredFrom place.dropLast rest
    else d.AnchoredFrom (place ++ [part]) rest

/-- The path is anchored: its steps upwards leave directories that are there. -/
def Anchored (d : Disk) (p : Path) : Prop := d.AnchoredFrom (d.start p) p.parts

theorem anchoredFrom_append (d : Disk) (place : Location) (a b : List String) :
    d.AnchoredFrom place (a ++ b) ↔
      d.AnchoredFrom place a ∧ d.AnchoredFrom (follow place a) b := by
  induction a generalizing place with
  | nil => simp [AnchoredFrom]
  | cons part rest ih =>
    by_cases hpart : part = ".."
    · subst hpart
      simp [AnchoredFrom, ih, follow_up, and_assoc]
    · simp [AnchoredFrom, hpart, ih, follow_down]

theorem anchoredFrom_of_plain (d : Disk) (place : Location) (h : ".." ∉ parts) :
    d.AnchoredFrom place parts := by
  induction parts generalizing place with
  | nil => trivial
  | cons part rest ih =>
    rw [List.mem_cons, not_or] at h
    simpa [AnchoredFrom, Ne.symm h.1] using ih _ h.2

theorem anchoredFrom_of_walk (h : d.walk place parts = .ok l) : d.AnchoredFrom place parts := by
  induction parts generalizing place with
  | nil => trivial
  | cons part rest ih =>
    have hdir := dir_of_walk h
    by_cases hpart : part = ".."
    · subst hpart
      rw [walk_up _ _ _ hdir] at h
      simpa [AnchoredFrom, hdir] using ih h
    · rw [walk_down _ _ _ hdir hpart] at h
      split at h
      · cases h
      · simpa [AnchoredFrom, hpart] using ih h

/-- Directories that stay keep paths anchored. -/
theorem AnchoredFrom.mono (h : d.AnchoredFrom place parts)
    (hdirs : ∀ x, d.node? x = some .dir → d'.node? x = some .dir) :
    d'.AnchoredFrom place parts := by
  induction parts generalizing place with
  | nil => trivial
  | cons part rest ih =>
    by_cases hpart : part = ".."
    · subst hpart
      simp only [AnchoredFrom, if_true] at h ⊢
      exact ⟨hdirs _ h.1, ih h.2⟩
    · simp only [AnchoredFrom, hpart, if_false] at h ⊢
      exact ih h

/-! ## Paths that lead to something -/

/-- What stands at the end of anchored components stands below their start. -/
theorem WellFormed.dir_of_stands (hwf : d.WellFormed) {part : String} {rest : List String}
    (hanchor : d.AnchoredFrom place (part :: rest))
    (h : (d.node? (follow place (part :: rest))).isSome) :
    d.node? place = some .dir := by
  induction rest generalizing place part with
  | nil =>
    by_cases hpart : part = ".."
    · subst hpart
      simp only [AnchoredFrom, if_true] at hanchor
      exact hanchor.1
    · rw [follow_down _ _ hpart] at h
      obtain ⟨n, hn⟩ := Option.isSome_iff_exists.1 h
      exact (hwf.parent _ _ _ hn).1
  | cons next more ih =>
    by_cases hpart : part = ".."
    · subst hpart
      simp only [AnchoredFrom, if_true] at hanchor
      exact hanchor.1
    · rw [follow_down _ _ hpart] at h
      rw [AnchoredFrom, if_neg hpart] at hanchor
      exact (hwf.parent _ _ _ (ih hanchor h)).1

/-- Below anchored components each name on the way stands in the directory before it. -/
theorem WellFormed.isSome_of_stands (hwf : d.WellFormed) {part : String} {rest : List String}
    (hpart : part ≠ "..") (hanchor : d.AnchoredFrom place (part :: rest))
    (h : (d.node? (follow place (part :: rest))).isSome) :
    (d.node? (place ++ [part])).isSome := by
  rw [follow_down _ _ hpart] at h
  rw [AnchoredFrom, if_neg hpart] at hanchor
  cases rest with
  | nil => exact h
  | cons next more => rw [hwf.dir_of_stands hanchor h, Option.isSome_some]

theorem WellFormed.nameable_of_stands (hwf : d.WellFormed) (hanchor : d.AnchoredFrom place parts)
    (h : (d.node? (follow place parts)).isSome) :
    ∀ part ∈ parts, part = ".." ∨ Nameable part := by
  induction parts generalizing place with
  | nil => simp
  | cons part rest ih =>
    intro x hx
    by_cases hpart : part = ".."
    · subst hpart
      simp only [AnchoredFrom, if_true] at hanchor
      rcases List.mem_cons.1 hx with rfl | hx
      · exact .inl rfl
      · exact ih hanchor.2 h x hx
    · rcases List.mem_cons.1 hx with rfl | hx
      · obtain ⟨n, hn⟩ := Option.isSome_iff_exists.1 (hwf.isSome_of_stands hpart hanchor h)
        exact .inr (hwf.parent _ _ _ hn).2
      · rw [follow_down _ _ hpart] at h
        rw [AnchoredFrom, if_neg hpart] at hanchor
        exact ih hanchor h x hx

/-- Anchored components lead to what stands at their end. -/
theorem WellFormed.walk_eq_ok (hwf : d.WellFormed) (hanchor : d.AnchoredFrom place parts)
    (h : (d.node? (follow place parts)).isSome) : d.walk place parts = .ok (follow place parts) := by
  induction parts generalizing place with
  | nil => rfl
  | cons part rest ih =>
    have hdir := hwf.dir_of_stands hanchor h
    by_cases hpart : part = ".."
    · subst hpart
      simp only [AnchoredFrom, if_true] at hanchor
      rw [walk_up _ _ _ hdir]
      exact ih hanchor.2 h
    · have hname : Nameable part :=
        (hwf.nameable_of_stands hanchor h part (by simp)).resolve_left hpart
      rw [walk_down _ _ _ hdir hpart, hname.short, follow_down _ _ hpart]
      rw [follow_down _ _ hpart] at h
      rw [AnchoredFrom, if_neg hpart] at hanchor
      exact ih hanchor h

/-! ## Asking -/

theorem pathFault?_eq_nul_iff (p : Path) :
    pathFault? p = some .nul ↔ ∃ part ∈ p.parts, '\x00' ∈ part.toList := by
  rw [pathFault?]
  split
  · next h => simpa using h
  · next h => split <;> simpa using h

theorem pathFault?_cases (p : Path) :
    pathFault? p = none ∨ pathFault? p = some .nul ∨ pathFault? p = some .nameTooLong := by
  rw [pathFault?]
  split
  · simp
  · split <;> simp

theorem pathFault?_eq_none_iff (p : Path) :
    pathFault? p = none ↔
      (∀ part ∈ p.parts, '\x00' ∉ part.toList) ∧ p.toString.utf8ByteSize ≤ 4095 := by
  rw [pathFault?]
  split
  · next h => simpa using fun hno ↦ absurd h (by simpa using hno)
  · next h =>
    have hno : ∀ part ∈ p.parts, '\x00' ∉ part.toList := by simpa using h
    split
    · next hlong => simpa using fun _ ↦ hlong
    · next hshort => exact ⟨fun _ ↦ ⟨hno, by omega⟩, fun _ ↦ rfl⟩

theorem toString_of_ne_nil (slashes : Nat) {parts : List String} (h : parts ≠ []) :
    Path.toString ⟨slashes, parts⟩ =
      String.ofList (List.replicate slashes '/') ++ "/".intercalate parts := by
  simp [Path.toString, h]

theorem size_toString_le (slashes : Nat) (a b : List String) :
    (Path.toString ⟨slashes, a⟩).utf8ByteSize ≤
      max 1 (Path.toString ⟨slashes, a ++ b⟩).utf8ByteSize := by
  rcases eq_or_ne a [] with rfl | ha
  · rcases Nat.eq_zero_or_pos slashes with rfl | hslashes
    · exact le_max_left _ _
    · have hs : (slashes == 0) = false := by simpa using hslashes.ne'
      simp [Path.toString, hs]
  · rcases eq_or_ne b [] with rfl | hb
    · simp
    · rw [toString_of_ne_nil _ ha, toString_of_ne_nil _ (by simp [ha]),
        String.intercalate_append_of_ne_nil ha hb]
      simp only [String.utf8ByteSize_append]
      omega

/-- What is above a path that can be used can be used. -/
theorem pathFault?_of_append {slashes : Nat} {a b : List String}
    (h : pathFault? ⟨slashes, a ++ b⟩ = none) : pathFault? ⟨slashes, a⟩ = none := by
  rw [pathFault?_eq_none_iff] at h ⊢
  refine ⟨fun part hpart ↦ h.1 part (List.mem_append_left _ hpart), ?_⟩
  have := size_toString_le slashes a b
  omega

theorem WellFormed.node?_of_nul (hwf : d.WellFormed) {p : Path} (hanchor : d.Anchored p)
    (h : pathFault? p = some .nul) : d.node? (d.resolve p) = none := by
  obtain ⟨part, hpart, hnul⟩ := (pathFault?_eq_nul_iff p).1 h
  by_contra hsome
  rw [← ne_eq, Option.ne_none_iff_isSome, resolve_eq_follow] at hsome
  rcases hwf.nameable_of_stands hanchor hsome part hpart with rfl | hname
  · revert hnul
    decide
  · exact hname.noNul hnul

theorem locate_eq_resolve {p : Path} (h : d.locate p = .ok l) : l = d.resolve p := by
  rw [locate] at h
  split at h
  · cases h
  · exact walk_eq_follow h

theorem anchored_of_locate {p : Path} (h : d.locate p = .ok l) : d.Anchored p := by
  rw [locate] at h
  split at h
  · cases h
  · exact anchoredFrom_of_walk h

/-- The ways in which a walk can stop. -/
theorem walk_fault {fault : DiskFault} (h : d.walk place parts = .error fault) :
    fault = .notFound ∨ fault = .notDirectory ∨ fault = .nameTooLong := by
  induction parts generalizing place with
  | nil => cases h
  | cons part rest ih =>
    rw [walk] at h
    split at h
    · exact .inl (Except.error.inj h).symm
    · exact .inr (.inl (Except.error.inj h).symm)
    · split at h
      · exact ih h
      · split at h
        · exact .inr (.inr (Except.error.inj h).symm)
        · exact ih h

/-- An anchored path leads to its location, or nothing stands there, or it is refused because
it is too long. -/
theorem WellFormed.locate_cases (hwf : d.WellFormed) {p : Path} (hanchor : d.Anchored p) :
    d.locate p = .ok (d.resolve p) ∨ d.locate p = .error .nameTooLong ∨
      d.node? (d.resolve p) = none ∧ ∃ fault, d.locate p = .error fault ∧
        (fault = .notFound ∨ fault = .notDirectory ∨ fault = .nul) := by
  rcases pathFault?_cases p with hfault | hfault | hfault
  · have hlocate : d.locate p = d.walk (d.start p) p.parts := by
      rw [locate, hfault]
      rfl
    rw [hlocate]
    rcases hwalk : d.walk (d.start p) p.parts with fault | l
    · by_cases hsome : (d.node? (d.resolve p)).isSome
      · rw [hwf.walk_eq_ok hanchor hsome] at hwalk
        cases hwalk
      · rw [Option.not_isSome_iff_eq_none] at hsome
        rcases walk_fault hwalk with rfl | rfl | rfl
        · exact .inr (.inr ⟨hsome, _, rfl, .inl rfl⟩)
        · exact .inr (.inr ⟨hsome, _, rfl, .inr (.inl rfl)⟩)
        · exact .inr (.inl rfl)
    · exact .inl (by rw [walk_eq_follow hwalk, resolve_eq_follow])
  · exact .inr (.inr ⟨hwf.node?_of_nul hanchor hfault, .nul, by rw [locate, hfault],
      .inr (.inr rfl)⟩)
  · exact .inr (.inl (by rw [locate, hfault]))

/-- A question about an anchored path is answered as its location says, or not at all, because
the path is too long. -/
theorem WellFormed.holds_cases (hwf : d.WellFormed) {p : Path} (hanchor : d.Anchored p)
    (test : Node → Bool) :
    d.holds p test = .ok ((d.node? (d.resolve p)).any test) ∨
      d.holds p test = .error ⟨.nameTooLong, p⟩ ∧ d.locate p = .error .nameTooLong := by
  rcases hwf.locate_cases hanchor with hloc | hloc | ⟨hnone, fault, hloc, hfault⟩
  · left
    rcases hn : d.node? (d.resolve p) with - | n <;> simp [holds, nodeAt, hloc, hn]
  · right
    simp [holds, nodeAt, hloc]
  · left
    rcases hfault with rfl | rfl | rfl <;> simp [holds, nodeAt, hloc, hnone]

theorem WellFormed.eq_of_holds (hwf : d.WellFormed) {p : Path} (hanchor : d.Anchored p)
    {test : Node → Bool} {b : Bool} (h : d.holds p test = .ok b) :
    b = (d.node? (d.resolve p)).any test := by
  rcases hwf.holds_cases hanchor test with hok | ⟨herror, -⟩
  · rw [hok] at h
    exact (Except.ok.inj h).symm
  · rw [herror] at h
    cases h

theorem WellFormed.eq_of_isThere (hwf : d.WellFormed) {p : Path} (hanchor : d.Anchored p)
    {b : Bool} (h : d.isThere p = .ok b) : b = (d.node? (d.resolve p)).isSome := by
  rw [hwf.eq_of_holds hanchor h]
  cases d.node? (d.resolve p) <;> rfl

/-- What passes a test stands at the location of the path, anchored or not. -/
theorem node?_of_holds {p : Path} {test : Node → Bool} (h : d.holds p test = .ok true) :
    ∃ n, d.locate p = .ok (d.resolve p) ∧ d.node? (d.resolve p) = some n ∧ test n = true := by
  rw [holds] at h
  split at h
  · next n hn =>
    rw [nodeAt] at hn
    split at hn
    · cases hn
    · next l hl =>
      obtain rfl := locate_eq_resolve hl
      split at hn
      · cases hn
      · next n' hn' =>
        obtain rfl := Except.ok.inj hn
        exact ⟨_, hl, hn', Except.ok.inj h⟩
  · split at h <;> cases h

theorem locate_eq_walk {p : Path} (h : pathFault? p = none) :
    d.locate p = d.walk (d.start p) p.parts := by
  rw [locate, h]
  rfl

theorem pathFault?_of_locate {p : Path} (h : d.locate p = .ok l) : pathFault? p = none := by
  rw [locate] at h
  split at h
  · cases h
  · assumption

theorem isDir_eq_true_iff {p : Path} :
    d.isDir p = .ok true ↔
      d.locate p = .ok (d.resolve p) ∧ d.node? (d.resolve p) = some .dir := by
  constructor
  · intro h
    obtain ⟨n, hlocate, hn, htest⟩ := node?_of_holds h
    rw [beq_iff_eq] at htest
    rw [htest] at hn
    exact ⟨hlocate, hn⟩
  · rintro ⟨hlocate, hn⟩
    simp [isDir, holds, nodeAt, hlocate, hn]

/-- What is above a location that is found is a directory. -/
theorem isDir_of_locate {slashes : Nat} {a b : List String}
    (h : d.locate ⟨slashes, a ++ b⟩ = .ok l) (hb : b ≠ []) : d.isDir ⟨slashes, a⟩ = .ok true := by
  obtain ⟨part, rest, rfl⟩ := List.exists_cons_of_ne_nil hb
  have hfault := pathFault?_of_locate h
  rw [locate_eq_walk hfault, walk_append] at h
  rcases ha : d.walk (d.start ⟨slashes, a ++ part :: rest⟩) a with fault | q
  · rw [ha] at h
    cases h
  · rw [ha] at h
    have hq : d.locate ⟨slashes, a⟩ = .ok q := by
      rw [locate_eq_walk (pathFault?_of_append hfault), ← ha]
      rfl
    obtain rfl := locate_eq_resolve hq
    exact isDir_eq_true_iff.2 ⟨hq, dir_of_walk h⟩

/-- What is above a directory is a directory. -/
theorem isDir_of_append {slashes : Nat} {a b : List String}
    (h : d.isDir ⟨slashes, a ++ b⟩ = .ok true) : d.isDir ⟨slashes, a⟩ = .ok true := by
  cases b with
  | nil => rwa [List.append_nil] at h
  | cons part rest => exact isDir_of_locate (isDir_eq_true_iff.1 h).1 (by simp)

theorem anchored_of_isDir {p : Path} (h : d.isDir p = .ok true) : d.Anchored p :=
  anchored_of_locate (isDir_eq_true_iff.1 h).1

/-- An anchored path to a directory is one to a directory for every question, unless the path is
too long. -/
theorem WellFormed.isDir_of_node? (hwf : d.WellFormed) {p : Path} (hanchor : d.Anchored p)
    (hfault : pathFault? p = none) (h : d.node? (d.resolve p) = some .dir) :
    d.isDir p = .ok true := by
  refine isDir_eq_true_iff.2 ⟨?_, h⟩
  rw [locate_eq_walk hfault]
  exact hwf.walk_eq_ok hanchor (by rw [← resolve_eq_follow, h]; rfl)

/-! ## Names in directories -/

theorem isSome_lookupNode_iff (nodes : List (Location × Node)) (place : Location) :
    (lookupNode nodes place).isSome ↔ ∃ n, (place, n) ∈ nodes := by
  induction nodes with
  | nil => simp [lookupNode]
  | cons e rest ih =>
    by_cases h : e.1 = place
    · subst h
      simp only [lookupNode, if_true, Option.isSome_some, true_iff]
      exact ⟨e.2, by simp⟩
    · simp only [lookupNode, h, if_false, ih, List.mem_cons]
      refine exists_congr fun n ↦ ⟨.inr, ?_⟩
      rintro (rfl | hmem)
      · exact absurd rfl h
      · exact hmem

/-- What stands at a location below the root is written down. -/
theorem isSome_iff_mem : (d.node? (place ++ [name])).isSome ↔ ∃ n, (place ++ [name], n) ∈ d.nodes := by
  rw [node?, if_neg (by simp), isSome_lookupNode_iff]

/-- All names of a location at which something stands can stand on a disk. -/
theorem WellFormed.nameable_of_isSome (hwf : d.WellFormed) (h : (d.node? l).isSome) :
    ∀ name ∈ l, Nameable name := by
  induction l using List.reverseRecOn with
  | nil => simp
  | append_singleton place name ih =>
    obtain ⟨n, hn⟩ := Option.isSome_iff_exists.1 h
    obtain ⟨hdir, hname⟩ := hwf.parent _ _ _ hn
    have hplace := ih (by rw [hdir]; rfl)
    intro x hx
    rcases List.mem_append.1 hx with hx | hx
    · exact hplace x hx
    · rwa [List.mem_singleton.1 hx]

theorem WellFormed.nameable_of_mem (hwf : d.WellFormed) (h : (l, n) ∈ d.nodes) :
    ∀ name ∈ l, Nameable name := by
  apply hwf.nameable_of_isSome
  rcases List.eq_nil_or_concat l with rfl | ⟨place, name, rfl⟩
  · rfl
  · rw [List.concat_eq_append] at h ⊢
    exact isSome_iff_mem.2 ⟨n, h⟩

theorem mem_namesIn : name ∈ d.namesIn place ↔ (d.node? (place ++ [name])).isSome := by
  rw [isSome_iff_mem, namesIn, List.mem_filterMap]
  constructor
  · rintro ⟨⟨l, n⟩, hmem, hname⟩
    refine ⟨n, ?_⟩
    dsimp only at hname
    split at hname
    · next last hlast =>
      split at hname
      · next hdrop =>
        obtain rfl := Option.some.inj hname
        rw [beq_iff_eq] at hdrop
        rw [← hdrop, List.dropLast_append_getLast? _ hlast]
        exact hmem
      · cases hname
    · cases hname
  · rintro ⟨n, hmem⟩
    exact ⟨_, hmem, by simp⟩

/-! ## Disks that are written down -/

instance (name : String) : Decidable (Nameable name) :=
  decidable_of_iff (isTooLong name = false ∧ '\x00' ∉ name.toList ∧ '/' ∉ name.toList)
    ⟨fun h ↦ ⟨h.1, h.2.1, h.2.2⟩, fun h ↦ ⟨h.short, h.noNul, h.noSlash⟩⟩

theorem wellFormed_iff : d.WellFormed ↔ (∀ e ∈ d.nodes, ∀ name ∈ e.1.getLast?,
    d.node? e.1.dropLast = some .dir ∧ Nameable name) ∧ d.node? d.cwd = some .dir := by
  refine ⟨fun h ↦ ⟨fun e he name hname ↦ ?_, h.cwd⟩, fun h ↦ ⟨fun place name n hn ↦ ?_, h.2⟩⟩
  · have hsplit := List.dropLast_append_getLast? _ hname
    obtain ⟨n, hn⟩ := Option.isSome_iff_exists.1 (isSome_iff_mem.2 ⟨e.2, by rw [hsplit]; exact he⟩)
    exact h.parent _ _ n hn
  · obtain ⟨m, hm⟩ := isSome_iff_mem.1 (show (d.node? (place ++ [name])).isSome by rw [hn]; rfl)
    simpa using h.1 _ hm name (by simp)

instance (d : Disk) : Decidable d.WellFormed := decidable_of_iff _ wellFormed_iff.symm

end Disk

end Scaffold
