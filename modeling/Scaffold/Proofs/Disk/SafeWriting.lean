import Scaffold.Proofs.Disk.Effects

/-!
# Safe writing

A safe write goes through a temporary file beside its target. The name of that file is not in
use, so nothing else is overwritten, and it is gone afterwards, whether or not the write succeeds.
-/

namespace Scaffold.Disk

variable {d : Disk} {p : Path} {content : ByteArray}

/-! ## What comes and goes again -/

theorem putNode_of_lookupNode_eq_none {nodes : List (Location × Node)} {l : Location}
    (h : lookupNode nodes l = none) (n : Node) : putNode nodes l n = nodes ++ [(l, n)] := by
  induction nodes with
  | nil => rfl
  | cons e rest ih =>
    rw [lookupNode] at h
    split at h
    · cases h
    · next hne => rw [putNode, if_neg hne, ih h, List.cons_append]

/-- What comes where nothing stood and goes again leaves the disk as it was. -/
theorem erase_put {l : Location} (h : d.node? l = none) (n : Node) : (d.put l n).erase l = d := by
  have hlookup : lookupNode d.nodes l = none := by
    rw [node?] at h
    split at h
    · cases h
    · exact h
  have hfree : ∀ e ∈ d.nodes, (e.1 != l) = true := by
    intro e he
    rw [bne_iff_ne]
    rintro rfl
    have hsome := (isSome_lookupNode_iff d.nodes e.1).2 ⟨e.2, he⟩
    rw [hlookup] at hsome
    cases hsome
  rw [put, erase, putNode_of_lookupNode_eq_none hlookup, List.filter_append,
    List.filter_eq_self.2 hfree]
  simp

/-- A file that takes the place of no directory leaves paths as they are. -/
theorem locate_put_file {l x : Location} (hl : d.node? l ≠ some .dir) (h : d.locate p = .ok x) :
    (d.put l (.file content)).locate p = .ok x := by
  refine locate_eq_ok_of_keeps (d := d) rfl (fun y hy ↦ ?_) h
  rw [node?_put _ _ _ (by rintro rfl; exact hl rfl), if_neg, hy]
  rintro rfl
  exact hl hy

end Scaffold.Disk

namespace Scaffold.DiskOp

open Disk

variable {d d' : Disk} {name : String} {content : ByteArray} {p : Path}
  {dirs files : Location → Prop}

/-! ## Temporary names -/

theorem tempName_injective (name : String) : Function.Injective (tempName name) := by
  intro i j h
  have hlist := congrArg String.toList h
  simp only [tempName, String.toList_append, List.append_assoc, Binary64.zeros,
    String.toList_ofList, List.append_cancel_left_eq] at hlist
  rw [← List.append_assoc, ← List.append_assoc, List.append_cancel_right_eq] at hlist
  -- Leading zeros do not count, so the digits are read as the numbers they were written for.
  have hvalue := congrArg (Nat.ofDigitChars 10 · 0) hlist
  simpa [Nat.ofDigitChars_append, Nat.toString_eq_repr] using hvalue

/-- Among more different names than are in use there is one that is not. -/
theorem exists_find?_range {f : Nat → String} (hf : Function.Injective f) (used : List String) :
    ∃ k, ((List.range (used.length + 1)).find? fun k ↦ !used.contains (f k)) = some k ∧
      f k ∉ used := by
  rcases h : (List.range (used.length + 1)).find? fun k ↦ !used.contains (f k) with - | k
  · rw [List.find?_eq_none] at h
    have hsub : (List.range (used.length + 1)).map f ⊆ used := by
      intro x hx
      obtain ⟨k, hk, rfl⟩ := List.mem_map.1 hx
      simpa using h k hk
    have := (List.subperm_of_subset (List.nodup_range.map hf) hsub).length_le
    simp at this
  · exact ⟨k, rfl, by simpa using List.find?_some h⟩

theorem length_lt_length_tempName (name : String) (k : Nat) :
    name.length + 2 < (tempName name k).length := by
  have hdot : ".".length = 1 := by decide
  have htmp : ".tmp".length = 4 := by decide
  simp only [tempName, String.length_append, hdot, htmp]
  omega

theorem mem_tempName {name : String} {k : Nat} {c : Char} (h : c ∈ (tempName name k).toList) :
    c ∈ name.toList ∨ c.isDigit = true ∨ c ∈ ".tmp".toList := by
  simp only [tempName, Binary64.zeros, Nat.toString_eq_repr, String.toList_append,
    String.toList_ofList, Nat.toList_repr, List.mem_append, List.mem_replicate] at h
  rcases h with ((((h | h) | h) | ⟨-, rfl⟩) | h) | h
  · exact .inr (.inr (by revert h; simp +contextual))
  · exact .inl h
  · exact .inr (.inr (by revert h; simp +contextual))
  · exact .inr (.inl (by decide))
  · exact .inr (.inl (Nat.isDigit_of_mem_toDigits (by decide) (by decide) h))
  · exact .inr (.inr h)

/-- A temporary name has no character that no name can have. -/
theorem not_mem_tempName {name : String} {c : Char} (h : c ∉ name.toList)
    (hc : c = '/' ∨ c = '\x00') (k : Nat) : c ∉ (tempName name k).toList := by
  intro hmem
  rcases (mem_tempName hmem).resolve_left h with hdigit | hmem
  · rcases hc with rfl | rfl <;> revert hdigit <;> decide
  · rcases hc with rfl | rfl <;> revert hmem <;> decide

/-- The temporary file has a name of its own in the directory of its target. -/
theorem freshBeside_spec (d : Disk) {slashes : Nat} {parts : List String} {name : String}
    (hdir : d.isDir ⟨slashes, parts⟩ = .ok true) (hname : '/' ∉ name.toList) :
    ∃ temp, freshBeside d ⟨slashes, parts ++ [name]⟩ = ⟨slashes, parts ++ [temp]⟩ ∧
      '/' ∉ temp.toList ∧ temp ≠ name ∧ temp ≠ ".." ∧
        d.node? (d.resolve ⟨slashes, parts⟩ ++ [temp]) = none := by
  have hlist : d.list ⟨slashes, parts⟩ = d.namesIn (d.resolve ⟨slashes, parts⟩) := by
    rw [list, (isDir_eq_true_iff.1 hdir).1]
  obtain ⟨k, hk, hfree⟩ := exists_find?_range (tempName_injective name)
    (d.namesIn (d.resolve ⟨slashes, parts⟩))
  have hlength := length_lt_length_tempName name k
  refine ⟨tempName name k, ?_, not_mem_tempName hname (.inl rfl) k, fun h ↦ ?_, fun h ↦ ?_, ?_⟩
  · simp only [freshBeside, Path.parent, Path.name, Path.child, List.dropLast_concat,
      List.getLast?_concat, Option.getD_some, hlist, hk]
  · rw [h] at hlength
    omega
  · have hdots : "..".length = 2 := by decide
    rw [h, hdots] at hlength
    omega
  · rwa [mem_namesIn, Bool.not_eq_true, Option.isSome_eq_false_iff, Option.isNone_iff_eq_none]
      at hfree

/-! ## Writing -/

theorem ends_moveFile {source target : Path} {l : Location} {n : Node}
    {good : Unit → Disk → Prop} {bad : DiskError → Disk → Prop} (hsource : d.locate source = .ok l)
    (hn : d.node? l = some n) :
    Ends (moveFile source target) d good bad ↔
      (∀ place, d.locate target = .ok place → d.node? place ≠ some .dir →
        good () ((d.erase l).put place n)) ∧
      (∀ place, d.locate target = .ok place → d.node? place = some .dir →
        bad ⟨.isDirectory, target⟩ d) ∧
      ∀ fault, d.locate target = .error fault → bad ⟨fault, target⟩ d := by
  rw [moveFile, ends_bind, ends_locate, hsource]
  simp only [Except.ok.injEq, forall_eq', reduceCtorEq, false_imp_iff, implies_true, and_true,
    ends_bind, ends_locate]
  rcases d.locate target with fault | place
  · simp
  · rcases hplace : d.node? place with - | ⟨-⟩ | c <;> simp [hplace, hn]

/-- A temporary file that was written where nothing stood is moved into place, or it is removed
again: then the disk is the one from before. -/
theorem ends_moveOrRemove {temp target : Path} {l : Location} {good : Unit → Disk → Prop}
    {bad : DiskError → Disk → Prop} (hlocate : d.locate temp = .ok l) (hnone : d.node? l = none) :
    Ends (tryCatch (moveFile temp target) fun e ↦ do
        remove temp
        throw e) (d.put l (.file content)) good bad ↔
      (∀ place, (d.put l (.file content)).locate target = .ok place →
        (d.put l (.file content)).node? place ≠ some .dir → good () (d.put place (.file content))) ∧
      (∀ place, (d.put l (.file content)).locate target = .ok place →
        (d.put l (.file content)).node? place = some .dir → bad ⟨.isDirectory, target⟩ d) ∧
      ∀ fault, (d.put l (.file content)).locate target = .error fault → bad ⟨fault, target⟩ d := by
  have hne : l ≠ [] := by
    rintro rfl
    cases hnone
  have hfree : d.node? l ≠ some .dir := by
    rw [hnone]
    simp
  have htemp : (d.put l (.file content)).locate temp = .ok l := locate_put_file hfree hlocate
  have hthere : (d.put l (.file content)).node? l = some (.file content) := by
    rw [node?_put _ _ _ hne, if_pos rfl]
  have hundo (e : DiskError) : Ends (remove temp >>= fun _ ↦ throw (α := Unit) e)
      (d.put l (.file content)) good bad ↔ bad e d := by
    simp [ends_remove, htemp, hthere, erase_put hnone]
  rw [ends_tryCatch, ends_moveFile htemp hthere, erase_put hnone]
  simp only [hundo]

/-- Writing through a temporary file changes the target and nothing else. -/
theorem changes_writeVia {slashes : Nat} {parts : List String} {temp : String}
    (hwf : d.WellFormed) (hspelled : Path.Spelled ⟨slashes, parts ++ [name]⟩)
    (hslash : '/' ∉ temp.toList) (htemp : temp ≠ "..")
    (hnone : d.node? (d.resolve ⟨slashes, parts⟩ ++ [temp]) = none) :
    Ends (do
        write ⟨slashes, parts ++ [temp]⟩ content
        tryCatch (moveFile ⟨slashes, parts ++ [temp]⟩ ⟨slashes, parts ++ [name]⟩) fun e ↦ do
          remove ⟨slashes, parts ++ [temp]⟩
          throw e) d
      (fun _ d' ↦ Changes nowhere (· = d.resolve ⟨slashes, parts ++ [name]⟩) d d' ∧
        d'.locate ⟨slashes, parts ++ [name]⟩ = .ok (d.resolve ⟨slashes, parts ++ [name]⟩) ∧
          d'.file? (d.resolve ⟨slashes, parts ++ [name]⟩) = some content)
      fun _ d' ↦ Changes nowhere nowhere d d' := by
  have hspelled' : Path.Spelled ⟨slashes, parts ++ [temp]⟩ := fun part hpart ↦ by
    rcases List.mem_append.1 hpart with hpart | hpart
    · exact hspelled part (List.mem_append_left _ hpart)
    · rwa [List.mem_singleton.1 hpart]
  rw [← resolve_append _ _ _ (by simpa using htemp.symm)] at hnone
  simp only [ends_bind, ends_write]
  refine ⟨fun l hl _ ↦ ?_, fun _ _ _ ↦ .refl hwf, fun _ _ ↦ .refl hwf⟩
  obtain rfl := locate_eq_resolve hl
  rw [ends_moveOrRemove hl hnone]
  refine ⟨fun place hplace hfree ↦ ?_, fun _ _ _ ↦ .refl hwf, fun _ _ ↦ .refl hwf⟩
  -- While the temporary file stands, the directories are those that were there before.
  have h₁ : Changes nowhere (· = d.resolve ⟨slashes, parts ++ [temp]⟩) d
      (d.put (d.resolve ⟨slashes, parts ++ [temp]⟩) (.file content)) := by
    obtain ⟨q, x, hq, hdir, hx⟩ := hwf.exists_child_of_locate hspelled' hl (by rw [hnone]; simp)
    rw [hq] at hnone ⊢
    exact .put_file hwf hdir hx (by rw [hnone]; simp)
  have hback (l : Location) (h : (d.put (d.resolve ⟨slashes, parts ++ [temp]⟩)
      (.file content)).node? l = some .dir) : d.node? l = some .dir := (h₁.comes l h).resolve_right id
  obtain ⟨q, x, rfl, hdir, hx⟩ := h₁.wellFormed.exists_child_of_locate hspelled hplace hfree
  have hplace' : d.locate ⟨slashes, parts ++ [name]⟩ = .ok (q ++ [x]) :=
    locate_eq_ok_of_keeps h₁.cwd.symm hback hplace
  have hput : Changes nowhere (· = q ++ [x]) d (d.put (q ++ [x]) (.file content)) :=
    .put_file hwf (hback _ hdir) hx fun h ↦ hfree (h₁.keeps _ h)
  rw [← locate_eq_resolve hplace']
  exact ⟨hput, hput.locate_eq_ok hplace',
    by rw [file?_eq_some_iff, node?_put _ _ _ (by simp), if_pos rfl]⟩

/-- A safe write changes its target, if anything, and may add directories above it. -/
theorem changes_writeSafely {slashes : Nat} {parts : List String}
    (hwf : d.WellFormed) (hspelled : Path.Spelled ⟨slashes, parts ++ [name]⟩)
    (hparent : Ends (makeDirs ⟨slashes, parts⟩) d (fun _ d' ↦ Changes dirs nowhere d d')
      fun _ d' ↦ Changes dirs nowhere d d') :
    Ends (writeSafely ⟨slashes, parts ++ [name]⟩ content) d
      (fun _ d' ↦ Changes dirs (· = d.resolve ⟨slashes, parts ++ [name]⟩) d d' ∧
        d'.locate ⟨slashes, parts ++ [name]⟩ = .ok (d.resolve ⟨slashes, parts ++ [name]⟩) ∧
          d'.file? (d.resolve ⟨slashes, parts ++ [name]⟩) = some content)
      fun _ d' ↦ Changes dirs nowhere d d' := by
  have hparts : Path.parent ⟨slashes, parts ++ [name]⟩ = ⟨slashes, parts⟩ := by
    rw [Path.parent, List.dropLast_concat]
  have hspelled' : Path.Spelled ⟨slashes, parts⟩ := fun part hpart ↦
    hspelled part (List.mem_append_left _ hpart)
  rw [writeSafely, ends_bind, hparts]
  refine (hparent.and (isDir_of_makeDirs hwf hspelled')).mono ?_ fun _ _ h ↦ h.1
  rintro _ d₁ ⟨h₁, hdir⟩
  obtain ⟨temp, hfresh, hslash, -, htemp, hnone⟩ := freshBeside_spec d₁ hdir
    (hspelled name (by simp))
  rw [ends_bind, ends_get]
  simp only [hfresh]
  refine (changes_writeVia h₁.wellFormed hspelled hslash htemp hnone).mono
    (fun _ d₂ h₂ ↦ ?_) fun _ d₂ h₂ ↦ h₁.trans (h₂.mono (fun _ ↦ False.elim) fun _ ↦ id)
  rw [h₁.resolve_eq] at h₂
  exact ⟨(h₁.mono (fun _ ↦ id) fun _ ↦ False.elim).trans (h₂.1.mono (fun _ ↦ False.elim) fun _ ↦ id),
    h₂.2⟩

end Scaffold.DiskOp
