import Scaffold.Proofs.Ends
import Scaffold.Proofs.Disk.Changes

/-!
# What operations on a disk change

Making directories adds directories on the way and nothing else; writing and copying change one
file besides; a safe write leaves no trace of its temporary file. This holds of failed operations
too, which stop on the way.
-/

namespace Scaffold.DiskOp

open Disk

variable {α : Type} {d d' : Disk} {place l : Location} {name : String} {content : ByteArray}
  {p source target : Path} {dirs files : Location → Prop}

/-- Nowhere. -/
abbrev nowhere : Location → Prop := fun _ ↦ False

/-- Everywhere. -/
abbrev everywhere : Location → Prop := fun _ ↦ True

/-! ## Single steps -/

section Steps

variable {good : α → Disk → Prop} {bad : DiskError → Disk → Prop}

theorem ends_ask (query : Disk → Except DiskError α) :
    Ends (ask query) d good bad ↔
      (∀ a, query d = .ok a → good a d) ∧ ∀ e, query d = .error e → bad e d := by
  rw [ask, ends_bind, ends_get]
  rcases query d with e | a <;> simp

theorem ends_locate {good : Location → Disk → Prop} :
    Ends (locate p) d good bad ↔ (∀ l, d.locate p = .ok l → good l d) ∧
      ∀ fault, d.locate p = .error fault → bad ⟨fault, p⟩ d := by
  rw [locate, ends_ask]
  rcases d.locate p with fault | l <;> simp [Except.mapError]

variable {good : Unit → Disk → Prop}

theorem ends_makeDir :
    Ends (makeDir p) d good bad ↔
      (∀ l, d.locate p = .ok l → d.node? l = none → good () (d.put l .dir)) ∧
      (∀ l, d.locate p = .ok l → d.node? l ≠ none → bad ⟨.exists, p⟩ d) ∧
      ∀ fault, d.locate p = .error fault → bad ⟨fault, p⟩ d := by
  rw [makeDir, ends_bind, ends_locate]
  rcases d.locate p with fault | l
  · simp
  · rcases hn : d.node? l with - | n <;> simp [hn]

theorem ends_write :
    Ends (write p content) d good bad ↔
      (∀ l, d.locate p = .ok l → d.node? l ≠ some .dir → good () (d.put l (.file content))) ∧
      (∀ l, d.locate p = .ok l → d.node? l = some .dir → bad ⟨.isDirectory, p⟩ d) ∧
      ∀ fault, d.locate p = .error fault → bad ⟨fault, p⟩ d := by
  rw [write, ends_bind, ends_locate]
  rcases d.locate p with fault | l
  · simp
  · rcases hn : d.node? l with - | ⟨-⟩ | c <;> simp [hn]

theorem ends_remove :
    Ends (remove p) d good bad ↔
      (∀ l, d.locate p = .ok l → ∀ c, d.node? l = some (.file c) → good () (d.erase l)) ∧
      (∀ l, d.locate p = .ok l → d.node? l = none → bad ⟨.notFound, p⟩ d) ∧
      (∀ l, d.locate p = .ok l → d.node? l = some .dir → bad ⟨.isDirectory, p⟩ d) ∧
      ∀ fault, d.locate p = .error fault → bad ⟨fault, p⟩ d := by
  rw [remove, ends_bind, ends_locate]
  rcases d.locate p with fault | l
  · simp
  · rcases hn : d.node? l with - | ⟨-⟩ | c <;> simp [hn]

end Steps

/-! ## Making directories -/

/-- Where the components of a path with so many slashes start. -/
theorem start_mk (d : Disk) (slashes : Nat) (parts parts' : List String) :
    d.start ⟨slashes, parts⟩ = d.start ⟨slashes, parts'⟩ := rfl

theorem changes_makeDirsAlong {slashes : Nat} {rest : List String} {done : List String}
    (hwf : d.WellFormed) (hspelled : ∀ part ∈ done ++ rest, '/' ∉ part.toList)
    (hdirs : ∀ a, a <+: rest → d.node? (d.resolve ⟨slashes, done ++ a⟩) = none →
      dirs (d.resolve ⟨slashes, done ++ a⟩)) :
    Ends (makeDirsAlong slashes done rest) d (fun _ d' ↦ Changes dirs nowhere d d')
      fun _ d' ↦ Changes dirs nowhere d d' := by
  induction rest generalizing d done with
  | nil => exact (ends_pure _).2 (.refl hwf)
  | cons part rest ih =>
    have hstep (d₁ : Disk) (h : Changes dirs nowhere d d₁) :
        Ends (makeDirsAlong slashes (done ++ [part]) rest) d₁ (fun _ d' ↦ Changes dirs nowhere d d')
          fun _ d' ↦ Changes dirs nowhere d d' := by
      refine (ih h.wellFormed (by simpa using hspelled) fun a ha hnone ↦ ?_).mono
        (fun _ _ ↦ h.trans) fun _ _ ↦ h.trans
      rw [h.resolve_eq, List.append_assoc, List.singleton_append] at hnone ⊢
      refine hdirs _ (List.cons_prefix_cons.2 ⟨rfl, ha⟩) ?_
      exact h.node?_eq_none hnone
    rw [makeDirsAlong, ends_bind, ends_ask]
    refine ⟨fun there hthere ↦ ?_, fun _ _ ↦ .refl hwf⟩
    rcases there with - | -
    · simp only [Bool.not_false, if_true, ends_bind, ends_makeDir]
      refine ⟨fun l hl hnone ↦ hstep _ ?_, fun _ _ _ ↦ .refl hwf, fun _ _ ↦ .refl hwf⟩
      have hfree : d.node? l ≠ some .dir := by rw [hnone]; simp
      obtain ⟨q, x, rfl, hdir, hname⟩ := hwf.exists_child_of_locate
        (fun x hx ↦ hspelled x (by
          simp only [List.mem_append, List.mem_cons] at hx ⊢
          tauto)) hl hfree
      refine (Changes.put_dir hwf hdir hname hnone).mono ?_ fun _ ↦ id
      rintro _ rfl
      rw [locate_eq_resolve hl] at hnone ⊢
      exact hdirs [part] (List.cons_prefix_cons.2 ⟨rfl, List.nil_prefix⟩) hnone
    · simp only [Bool.not_true, Bool.false_eq_true, if_false]
      exact hstep d (.refl hwf)

/-- A path is made from its first component on, unless no directory can have it. -/
theorem ends_makeDirs {good : Unit → Disk → Prop} {bad : DiskError → Disk → Prop} :
    Ends (makeDirs p) d good bad ↔
      (∀ fault, pathFault? p = some fault → bad ⟨fault, p⟩ d) ∧
      (pathFault? p = none → deepest < d.missingFrom (d.start p) p.parts → bad ⟨.tooDeep, p⟩ d) ∧
      (pathFault? p = none → ¬deepest < d.missingFrom (d.start p) p.parts →
        Ends (makeDirsAlong p.slashes [] p.parts) d good bad) := by
  rw [makeDirs]
  rcases pathFault? p with - | fault
  · by_cases hdeep : deepest < d.missingFrom (d.start p) p.parts
    · have : deepest < d.missingFrom (if p.isAbsolute then [] else d.cwd) p.parts := hdeep
      simp [hdeep, this]
    · have : ¬deepest < d.missingFrom (if p.isAbsolute then [] else d.cwd) p.parts := hdeep
      simp [hdeep, this]
  · simp

/-- Directories are made on the way, whether or not the last one can be made. -/
theorem changes_makeDirs (hwf : d.WellFormed) (hspelled : p.Spelled)
    (hdirs : ∀ a, a <+: p.parts → d.node? (d.resolve ⟨p.slashes, a⟩) = none →
      dirs (d.resolve ⟨p.slashes, a⟩)) :
    Ends (makeDirs p) d (fun _ d' ↦ Changes dirs nowhere d d')
      fun _ d' ↦ Changes dirs nowhere d d' :=
  ends_makeDirs.2 ⟨fun _ _ ↦ .refl hwf, fun _ _ ↦ .refl hwf, fun _ _ ↦
    changes_makeDirsAlong hwf hspelled hdirs⟩

/-- New directories on an anchored path stand above its end. -/
theorem prefix_resolve (hwf : d.WellFormed) (hanchor : d.Anchored p) {a : List String}
    (ha : a <+: p.parts) (hnone : d.node? (d.resolve ⟨p.slashes, a⟩) = none) :
    d.resolve ⟨p.slashes, a⟩ <+: d.resolve p := by
  obtain ⟨slashes, parts⟩ := p
  obtain ⟨rest, rfl⟩ := ha
  have hrest := ((anchoredFrom_append _ _ _ _).1 hanchor).2
  rw [resolve_eq_follow] at hnone
  have hplain : ".." ∉ rest := by
    intro hup
    obtain ⟨before, after, rfl, hbefore⟩ := List.eq_append_cons_of_mem hup
    have hdir := ((anchoredFrom_append _ _ _ _).1 hrest).2
    simp only [AnchoredFrom, if_true] at hdir
    rw [follow_of_plain _ hbefore] at hdir
    rcases eq_or_ne before [] with rfl | hne
    · rw [List.append_nil] at hdir
      rw [start_mk, hdir.1] at hnone
      cases hnone
    · have := hwf.isSome_of_prefix (List.prefix_append _ before) (by simpa using hne)
        (by rw [hdir.1]; rfl)
      rw [start_mk, this] at hnone
      cases hnone
  refine ⟨rest, ?_⟩
  rw [resolve_eq_follow, resolve_eq_follow, follow_append, follow_of_plain _ hplain]
  rfl

/-- Directories on an anchored path are made above its end. -/
theorem changes_makeDirs_of_anchored (hwf : d.WellFormed) (hspelled : p.Spelled)
    (hanchor : d.Anchored p) (hdirs : ∀ l, l <+: d.resolve p → dirs l) :
    Ends (makeDirs p) d (fun _ d' ↦ Changes dirs nowhere d d')
      fun _ d' ↦ Changes dirs nowhere d d' :=
  changes_makeDirs hwf hspelled fun _ ha hnone ↦ hdirs _ (prefix_resolve hwf hanchor ha hnone)

/-! ## Directories that are made -/

theorem isDir_of_makeDirsAlong {slashes : Nat} {rest done : List String} (hwf : d.WellFormed)
    (hspelled : ∀ part ∈ done ++ rest, '/' ∉ part.toList) :
    Ends (makeDirsAlong slashes done rest) d
      (fun _ d' ↦ rest ≠ [] → d'.isDir ⟨slashes, done ++ rest⟩ = .ok true) fun _ _ ↦ True := by
  induction rest generalizing d done with
  | nil => exact (ends_pure _).2 fun h ↦ absurd rfl h
  | cons part rest ih =>
    have hstep (d₁ : Disk) (hwf₁ : d₁.WellFormed)
        (hlast : d₁.isDir ⟨slashes, done ++ [part]⟩ = .ok true) :
        Ends (makeDirsAlong slashes (done ++ [part]) rest) d₁
          (fun _ d' ↦ part :: rest ≠ [] → d'.isDir ⟨slashes, done ++ part :: rest⟩ = .ok true)
          fun _ _ ↦ True := by
      cases rest with
      | nil => exact (ends_pure _).2 fun _ ↦ hlast
      | cons next more =>
        refine (ih hwf₁ (by simpa using hspelled)).mono (fun _ d' h _ ↦ ?_) fun _ _ ↦ id
        simpa using h
    rw [makeDirsAlong, ends_bind, ends_ask]
    refine ⟨fun there hthere ↦ ?_, fun _ _ ↦ trivial⟩
    rcases there with - | -
    · simp only [Bool.not_false, if_true, ends_bind, ends_makeDir]
      refine ⟨fun l hl hnone ↦ ?_, fun _ _ _ ↦ trivial, fun _ _ ↦ trivial⟩
      have hfree : d.node? l ≠ some .dir := by rw [hnone]; simp
      obtain ⟨q, x, rfl, hdir, hname⟩ := hwf.exists_child_of_locate
        (fun x hx ↦ hspelled x (by
          simp only [List.mem_append, List.mem_cons] at hx ⊢
          tauto)) hl hfree
      have hput : Changes _ nowhere d _ := .put_dir hwf hdir hname hnone
      refine hstep _ hput.wellFormed (isDir_eq_true_iff.2 ?_)
      rw [hput.resolve_eq, ← locate_eq_resolve hl]
      exact ⟨hput.locate_eq_ok hl, by rw [node?_put _ _ _ (by simp), if_pos rfl]⟩
    · simp only [Bool.not_true, Bool.false_eq_true, if_false]
      exact hstep d hwf hthere

/-- Directories that are made are there. -/
theorem isDir_of_makeDirs (hwf : d.WellFormed) (hspelled : p.Spelled) :
    Ends (makeDirs p) d (fun _ d' ↦ d'.isDir p = .ok true) fun _ _ ↦ True := by
  refine ends_makeDirs.2 ⟨fun _ _ ↦ trivial, fun _ _ ↦ trivial, fun hfault _ ↦ ?_⟩
  obtain ⟨slashes, parts⟩ := p
  rcases eq_or_ne parts [] with rfl | hne
  · refine (ends_pure _).2 (isDir_eq_true_iff.2 ⟨by rw [locate_eq_walk hfault]; rfl, ?_⟩)
    rw [resolve_eq_follow, follow_nil, start]
    split
    · rfl
    · exact hwf.cwd
  · have hspelled' : ∀ part ∈ [] ++ parts, '/' ∉ part.toList := hspelled
    exact (isDir_of_makeDirsAlong hwf hspelled').mono (fun _ _ h ↦ h hne) fun _ _ ↦ id

/-- Nothing is made on the way to a directory. -/
theorem ends_makeDirsAlong_of_isDir {slashes : Nat} {rest done : List String}
    {good : Unit → Disk → Prop} {bad : DiskError → Disk → Prop}
    (h : d.isDir ⟨slashes, done ++ rest⟩ = .ok true) :
    Ends (makeDirsAlong slashes done rest) d good bad ↔ good () d := by
  induction rest generalizing done with
  | nil => exact ends_pure _
  | cons part rest ih =>
    rw [← List.singleton_append, ← List.append_assoc] at h
    rw [makeDirsAlong, ends_bind, ends_ask, isDir_of_append h]
    simp [ih h]

theorem makeDirsAlong_append (slashes : Nat) (done a b : List String) :
    makeDirsAlong slashes done (a ++ b) =
      makeDirsAlong slashes done a >>= fun _ ↦ makeDirsAlong slashes (done ++ a) b := by
  induction a generalizing done with
  | nil => simp [makeDirsAlong]
  | cons part rest ih =>
    rw [List.cons_append, makeDirsAlong, makeDirsAlong, bind_assoc]
    congr 1
    funext there
    cases there <;> simp [ih]

/-- Below a directory directories can be made where no files stand. -/
theorem makeDirsAlong_returns {slashes : Nat} {rest done : List String} (hwf : d.WellFormed)
    (hdone : d.isDir ⟨slashes, done⟩ = .ok true) (hfault : pathFault? ⟨slashes, done ++ rest⟩ = none)
    (hnames : ∀ part ∈ rest, part ≠ ".." ∧ Nameable part)
    (hfiles : ∀ a, a <+: rest → d.file? (d.resolve ⟨slashes, done⟩ ++ a) = none) :
    Ends (makeDirsAlong slashes done rest) d (fun _ _ ↦ True) fun _ _ ↦ False := by
  induction rest generalizing d done with
  | nil => exact (ends_pure _).2 trivial
  | cons part rest ih =>
    rw [← List.singleton_append, ← List.append_assoc] at hfault
    obtain ⟨hlocate, hdir⟩ := isDir_eq_true_iff.1 hdone
    obtain ⟨hup, hname⟩ := hnames part (by simp)
    have hpart : d.locate ⟨slashes, done ++ [part]⟩ = .ok (d.resolve ⟨slashes, done⟩ ++ [part]) := by
      rw [locate_eq_walk (pathFault?_of_locate hlocate)] at hlocate
      rw [locate_eq_walk (pathFault?_of_append hfault), walk_append, start_mk _ _ _ done, hlocate]
      change d.walk _ [part] = _
      rw [walk_down _ _ _ hdir hup, hname.short]
      rfl
    have hstep (d₁ : Disk) {ds : Location → Prop} (h₁ : Changes ds nowhere d d₁)
        (hlast : d₁.node? (d.resolve ⟨slashes, done⟩ ++ [part]) = some .dir) :
        Ends (makeDirsAlong slashes (done ++ [part]) rest) d₁ (fun _ _ ↦ True) fun _ _ ↦ False := by
      have hthere : d₁.resolve ⟨slashes, done ++ [part]⟩ = d.resolve ⟨slashes, done⟩ ++ [part] :=
        (locate_eq_resolve (h₁.locate_eq_ok hpart)).symm
      refine ih h₁.wellFormed (isDir_eq_true_iff.2 ?_) (by simpa using hfault)
        (fun x hx ↦ hnames x (by simp [hx])) fun a ha ↦ ?_
      · rw [hthere]
        exact ⟨h₁.locate_eq_ok hpart, hlast⟩
      · rw [hthere, h₁.same _ id, List.append_assoc]
        exact hfiles _ (List.cons_prefix_cons.2 ⟨rfl, ha⟩)
    have hfile := hfiles [part] (List.cons_prefix_cons.2 ⟨rfl, List.nil_prefix⟩)
    rw [makeDirsAlong, ends_bind, ends_ask]
    rw [file?_eq_none_iff] at hfile
    rcases hfile with hnone | hnode
    · have hask : d.isDir ⟨slashes, done ++ [part]⟩ = .ok false := by
        simp [isDir, holds, nodeAt, hpart, hnone]
      simp only [hask, Except.ok.injEq, forall_eq', reduceCtorEq, false_imp_iff, implies_true,
        and_true, Bool.not_false, if_true, ends_bind, ends_makeDir, hpart]
      have hput : Changes _ nowhere d _ := .put_dir hwf hdir hname hnone
      exact ⟨fun _ ↦ hstep _ hput (by rw [node?_put _ _ _ (by simp), if_pos rfl]),
        fun h ↦ absurd hnone h⟩
    · have hask : d.isDir ⟨slashes, done ++ [part]⟩ = .ok true := by
        simp [isDir, holds, nodeAt, hpart, hnode]
      simp only [hask, Except.ok.injEq, forall_eq', reduceCtorEq, false_imp_iff, implies_true,
        and_true, Bool.not_true, Bool.false_eq_true, if_false]
      have hrefl : Changes nowhere nowhere d d := .refl hwf
      exact hstep d hrefl hnode

theorem missingFrom_le_length (d : Disk) (place : Location) (rest : List String) :
    d.missingFrom place rest ≤ rest.length := by
  induction rest generalizing place with
  | nil => exact le_refl 0
  | cons part rest ih =>
    rw [missingFrom]
    split
    · exact (ih _).trans (Nat.le_succ _)
    · split
      · exact le_refl _
      · exact (ih _).trans (Nat.le_succ _)

/-- Nothing is missing on the way to a directory. -/
theorem missingFrom_append {done : List String} (hwalk : d.walk place done = .ok l)
    (hdir : d.node? l = some .dir) (rest : List String) :
    d.missingFrom place (done ++ rest) = d.missingFrom l rest := by
  induction done generalizing place with
  | nil =>
    obtain rfl := Except.ok.inj hwalk
    rfl
  | cons part more ih =>
    have hplace := dir_of_walk hwalk
    by_cases hup : part = ".."
    · subst hup
      rw [walk_up _ _ _ hplace] at hwalk
      simpa [missingFrom] using ih hwalk
    · rw [walk_down _ _ _ hplace hup] at hwalk
      split at hwalk
      · cases hwalk
      · have hpart : (d.node? (place ++ [part])).isNone = false := by
          cases more with
          | nil =>
            obtain rfl := Except.ok.inj hwalk
            rw [hdir]
            rfl
          | cons next more => rw [dir_of_walk hwalk, Option.isNone_some]
        rw [List.cons_append, missingFrom, if_neg (by simpa using hup), hpart]
        exact ih hwalk

/-- Below a directory directories can be made where no files stand. -/
theorem makeDirs_returns {slashes : Nat} {done rest : List String} (hwf : d.WellFormed)
    (hdone : d.isDir ⟨slashes, done⟩ = .ok true) (hfault : pathFault? ⟨slashes, done ++ rest⟩ = none)
    (hnames : ∀ part ∈ rest, part ≠ ".." ∧ Nameable part)
    (hfiles : ∀ a, a <+: rest → d.file? (d.resolve ⟨slashes, done⟩ ++ a) = none)
    (hshort : rest.length ≤ deepest) :
    Ends (makeDirs ⟨slashes, done ++ rest⟩) d (fun _ _ ↦ True) fun _ _ ↦ False := by
  obtain ⟨hlocate, hdir⟩ := isDir_eq_true_iff.1 hdone
  rw [locate_eq_walk (pathFault?_of_locate hlocate)] at hlocate
  have hmissing : d.missingFrom (d.start ⟨slashes, done ++ rest⟩) (done ++ rest) ≤ deepest := by
    rw [start_mk _ _ _ done, missingFrom_append hlocate hdir]
    exact (missingFrom_le_length _ _ _).trans hshort
  refine ends_makeDirs.2 ⟨fun fault h ↦ ?_, fun _ h ↦ absurd hmissing (not_le.2 h), fun _ _ ↦ ?_⟩
  · rw [hfault] at h
    cases h
  · rw [makeDirsAlong_append, ends_bind, ends_makeDirsAlong_of_isDir hdone]
    exact makeDirsAlong_returns hwf hdone hfault hnames hfiles

/-! ## Writing and copying -/

/-- What is written stands there afterwards. -/
theorem changes_write (hwf : d.WellFormed) (hspelled : p.Spelled) :
    Ends (write p content) d
      (fun _ d' ↦ Changes nowhere (· = d.resolve p) d d' ∧
        d'.locate p = .ok (d.resolve p) ∧ d'.file? (d.resolve p) = some content)
      fun _ d' ↦ d' = d := by
  refine ends_write.2 ⟨fun l hl hfree ↦ ?_, fun _ _ _ ↦ rfl, fun _ _ ↦ rfl⟩
  obtain ⟨q, x, hq, hdir, hname⟩ := hwf.exists_child_of_locate hspelled hl hfree
  rw [← locate_eq_resolve hl]
  subst hq
  have hput : Changes nowhere (· = q ++ [x]) d (d.put (q ++ [x]) (.file content)) :=
    .put_file hwf hdir hname hfree
  refine ⟨hput, hput.locate_eq_ok hl, ?_⟩
  rw [file?_eq_some_iff, node?_put _ _ _ (by simp), if_pos rfl]

/-- A copy is refused, or it reads the source and writes to the target, or into the directory at
the target. -/
theorem ends_copyOnto_of {good : Unit → Disk → Prop} {bad : DiskError → Disk → Prop}
    (h : ∀ q, q = target ∧ d.isDir target ≠ .ok true ∨
        q = target.child source.name ∧ d.isDir target = .ok true →
      (d.resolve source = d.resolve q → bad ⟨.sameFile q, source⟩ d) ∧
        Ends (ask (·.readBytes source) >>= write q) d good bad) :
    Ends (copyOnto source target) d good bad := by
  obtain ⟨q, hq, hcases⟩ : ∃ q, (if ((d.isDir target).toOption).getD false then
      target.child source.name else target) = q ∧
        (q = target ∧ d.isDir target ≠ .ok true ∨
          q = target.child source.name ∧ d.isDir target = .ok true) := by
    rcases hdir : d.isDir target with e | - | -
    · exact ⟨_, rfl, .inl ⟨rfl, nofun⟩⟩
    · exact ⟨_, rfl, .inl ⟨rfl, nofun⟩⟩
    · exact ⟨_, rfl, .inr ⟨rfl, rfl⟩⟩
  obtain ⟨hsame, hcopy⟩ := h q hcases
  rw [copyOnto, ends_bind, ends_get]
  simp only [hq]
  rcases hsource : d.locate source with fault | start
  · simpa using hcopy
  · rcases hplace : d.locate q with fault | l
    · simpa using hcopy
    · simp only
      split
      · next heq =>
        simp only [Bool.and_eq_true, beq_iff_eq] at heq
        rw [locate_eq_resolve hsource, locate_eq_resolve hplace] at heq
        simpa using hsame heq.1
      · simpa using hcopy

theorem ends_copyOnto {good : Unit → Disk → Prop} {bad : DiskError → Disk → Prop}
    (hfree : d.node? (d.resolve target) ≠ some .dir)
    (hsame : d.resolve source = d.resolve target → bad ⟨.sameFile target, source⟩ d)
    (hcopy : ∀ content, d.readBytes source = .ok content →
      Ends (write target content) d good bad)
    (hread : ∀ e, d.readBytes source = .error e → bad e d) :
    Ends (copyOnto source target) d good bad := by
  apply ends_copyOnto_of
  rintro q (⟨rfl, -⟩ | ⟨-, hdir⟩)
  · refine ⟨hsame, ?_⟩
    rw [ends_bind, ends_ask]
    exact ⟨hcopy, hread⟩
  · exact absurd (isDir_eq_true_iff.1 hdir).2 hfree

/-- A copy that succeeds leaves the content of the source at the target. -/
theorem changes_copyFile (hspelled : target.Spelled)
    (hparent : Ends (makeDirs target.parent) d (fun _ d' ↦ Changes dirs nowhere d d')
      fun _ d' ↦ Changes dirs nowhere d d')
    (hfree : d.node? (d.resolve target) ≠ some .dir) (hdirs : ¬dirs (d.resolve target)) :
    Ends (copyFile source target) d
      (fun _ d' ↦ ∃ content, d.file? (d.resolve source) = some content ∧
        Changes dirs (· = d.resolve target) d d' ∧ d'.locate target = .ok (d.resolve target) ∧
        d'.file? (d.resolve target) = some content)
      fun _ d' ↦ Changes dirs nowhere d d' := by
  rw [copyFile, ends_bind]
  refine hparent.mono (fun _ d₁ h₁ ↦ ?_) fun _ _ ↦ id
  have hfree₁ : d₁.node? (d₁.resolve target) ≠ some .dir := fun h ↦ by
    rw [h₁.resolve_eq] at h
    exact (h₁.comes _ h).elim hfree hdirs
  refine ends_copyOnto hfree₁ (fun _ ↦ h₁) (fun content hread ↦ ?_) fun _ _ ↦ h₁
  have hsource := (readBytes_eq_ok_iff.1 hread).2
  rw [h₁.resolve_eq, h₁.same _ id] at hsource
  refine (changes_write h₁.wellFormed hspelled).mono ?_ fun _ d' h ↦ ?_
  · rintro _ d' ⟨hd', hlocate, hfile⟩
    rw [h₁.resolve_eq] at hd' hlocate hfile
    exact ⟨content, hsource, (h₁.mono (fun _ ↦ id) fun _ ↦ False.elim).trans
      (hd'.mono (fun _ ↦ False.elim) fun _ ↦ id), hlocate, hfile⟩
  · rw [h]
    exact h₁

/-- A copy that fails changes no file. -/
theorem changes_copyFile_of_spelled (hwf : d.WellFormed) (hsource : source.Spelled)
    (htarget : target.Spelled) :
    Ends (copyFile source target) d (fun _ d' ↦ Changes everywhere everywhere d d')
      fun _ d' ↦ Changes everywhere nowhere d d' := by
  have hparent : target.parent.Spelled := fun part hpart ↦
    htarget part (List.dropLast_subset _ hpart)
  rw [copyFile, ends_bind]
  refine (changes_makeDirs hwf hparent fun _ _ _ ↦ trivial).mono (fun _ d₁ h₁ ↦ ?_) fun _ _ ↦ id
  refine ends_copyOnto_of fun q hq ↦ ⟨fun _ ↦ h₁, ?_⟩
  have hspelled : q.Spelled := by
    rcases hq with ⟨rfl, -⟩ | ⟨rfl, -⟩
    · exact htarget
    · exact htarget.child_name hsource
  rw [ends_bind, ends_ask]
  refine ⟨fun content _ ↦ ?_, fun _ _ ↦ h₁⟩
  refine (changes_write h₁.wellFormed hspelled).mono ?_ ?_
  · rintro _ d' ⟨hd', -⟩
    exact (h₁.mono (fun _ ↦ id) fun _ ↦ False.elim).trans
      (hd'.mono (fun _ ↦ False.elim) fun _ _ ↦ trivial)
  · rintro _ d' rfl
    exact h₁

theorem changes_remove (hwf : d.WellFormed) :
    Ends (remove p) d (fun _ d' ↦ Changes nowhere (· = d.resolve p) d d') fun _ d' ↦ d' = d := by
  refine ends_remove.2 ⟨fun l hl c hfile ↦ ?_, fun _ _ _ ↦ rfl, fun _ _ _ ↦ rfl, fun _ _ ↦ rfl⟩
  rw [← locate_eq_resolve hl]
  exact .erase hwf hfile

/-- Below a directory a file can be copied onto a place that no directory takes, if no file stands
on the way. -/
theorem copyFile_returns {slashes : Nat} {done rest : List String} {file : String}
    (hwf : d.WellFormed) (htarget : target = ⟨slashes, done ++ (rest ++ [file])⟩)
    (hspelled : target.Spelled) (hdone : d.isDir ⟨slashes, done⟩ = .ok true)
    (hfault : pathFault? target = none)
    (hnames : ∀ part ∈ rest ++ [file], part ≠ ".." ∧ Nameable part)
    (hfiles : ∀ a, a <+: rest → d.file? (d.resolve ⟨slashes, done⟩ ++ a) = none)
    (hfree : d.node? (d.resolve ⟨slashes, done⟩ ++ (rest ++ [file])) ≠ some .dir)
    (hshort : rest.length ≤ deepest) (hsource : d.readBytes source = .ok content)
    (hne : d.resolve source ≠ d.resolve ⟨slashes, done⟩ ++ (rest ++ [file])) :
    Ends (copyFile source target) d (fun _ _ ↦ True) fun _ _ ↦ False := by
  subst htarget
  have hplain : ".." ∉ rest ++ [file] := fun h ↦ (hnames _ h).1 rfl
  have hplain' : ".." ∉ rest := fun h ↦ hplain (List.mem_append_left _ h)
  have hparent : Path.parent ⟨slashes, done ++ (rest ++ [file])⟩ = ⟨slashes, done ++ rest⟩ := by
    rw [Path.parent]
    simp only [← List.append_assoc, List.dropLast_concat]
  have hspelled' : Path.Spelled ⟨slashes, done ++ rest⟩ := fun part hpart ↦ hspelled part (by
    simp only [List.mem_append] at hpart ⊢
    tauto)
  have hanchor : d.Anchored ⟨slashes, done ++ rest⟩ :=
    (anchoredFrom_append _ _ _ _).2
      ⟨anchored_of_isDir hdone, anchoredFrom_of_plain _ _ hplain'⟩
  have hfault' : pathFault? ⟨slashes, done ++ rest⟩ = none := by
    rw [← List.append_assoc] at hfault
    exact pathFault?_of_append hfault
  have habove (l : Location) (h : l <+: d.resolve ⟨slashes, done ++ rest⟩) :
      (· <+: d.resolve ⟨slashes, done ++ rest⟩) l := h
  have hmake := ((makeDirs_returns hwf hdone hfault'
    (fun part hpart ↦ hnames part (List.mem_append_left _ hpart)) hfiles hshort).and
    (changes_makeDirs_of_anchored hwf hspelled' hanchor habove)).and
    (isDir_of_makeDirs hwf hspelled')
  rw [copyFile, ends_bind, hparent]
  refine hmake.mono ?_ fun _ _ h ↦ h.1.1
  rintro _ d₁ ⟨⟨-, h₁⟩, hdir₁⟩
  have hplace : d₁.resolve ⟨slashes, done ++ (rest ++ [file])⟩ =
      d.resolve ⟨slashes, done⟩ ++ (rest ++ [file]) := by
    rw [h₁.resolve_eq, resolve_append _ _ _ hplain]
  have hfree₁ : d₁.node? (d.resolve ⟨slashes, done⟩ ++ (rest ++ [file])) ≠ some .dir := by
    intro h
    refine (h₁.comes _ h).elim hfree fun hpre ↦ ?_
    have := hpre.length_le
    rw [resolve_append _ _ _ hplain'] at this
    simp at this
  have hlocate : d₁.locate ⟨slashes, done ++ (rest ++ [file])⟩ =
      .ok (d.resolve ⟨slashes, done⟩ ++ (rest ++ [file])) := by
    obtain ⟨hlocate₁, hnode₁⟩ := isDir_eq_true_iff.1 hdir₁
    obtain ⟨hup, hname⟩ := hnames file (by simp)
    rw [locate_eq_walk hfault'] at hlocate₁
    rw [locate_eq_walk hfault, ← List.append_assoc, walk_append, start_mk _ _ _ (done ++ rest),
      hlocate₁]
    change d₁.walk _ [file] = _
    rw [walk_down _ _ _ hnode₁ hup, hname.short, h₁.resolve_eq, resolve_append _ _ _ hplain',
      List.append_assoc]
    rfl
  refine ends_copyOnto (by rwa [hplace]) (fun h ↦ hne ?_) (fun c _ ↦ ends_write.2 ⟨?_, ?_, ?_⟩) ?_
  · rw [← hplace, ← h, h₁.resolve_eq]
  · exact fun _ _ _ ↦ trivial
  · intro l hl
    rw [hlocate] at hl
    obtain rfl := Except.ok.inj hl
    exact hfree₁
  · intro fault hl
    rw [hlocate] at hl
    cases hl
  · intro e he
    have := readBytes_eq_ok_iff.1 hsource
    rw [readBytes_eq_ok_iff.2 ⟨h₁.resolve_eq source ▸ h₁.locate_eq_ok this.1, by
      rw [h₁.resolve_eq, h₁.same _ id, this.2]⟩] at he
    cases he

end Scaffold.DiskOp
