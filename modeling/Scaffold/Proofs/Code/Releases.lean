import Mathlib
import Scaffold.Proofs.Code.Fresh

/-!
# Deleting files with their records

Before a record goes, its files go and those of all records below it. A request without files is
left out, but whether it has any is for the whole tree below it to say: `holdsFiles` and the code
descend alike, so code comes out exactly where a file is (`purgeTree_ne_nil_iff`), and then each file
is deleted once, in the loops and conditions that lead to its record (`allSteps_destroyBody`).
-/

namespace Scaffold.Code

open Stmt

variable {fields : List Field} {children : List NestedRelation} {record path field : String}
  {above branch : List NestedRelation} {n : NestedRelation}

/-! ## Files in a tree -/

mutual

/-- The files of a nested request and of those below it, each with the branch to its record. Linked
records keep their files. -/
def nodeFiles (above : List NestedRelation) : NestedRelation → List (List NestedRelation × String)
  | ⟨parent, r, fields, children⟩ =>
    if r.kind = .belongsToMany then []
    else
      (Field.attachments fields).map (⟨parent, r, fields, children⟩ :: above, ·) ++
        nodesFiles (⟨parent, r, fields, children⟩ :: above) children

def nodesFiles (above : List NestedRelation) :
    List NestedRelation → List (List NestedRelation × String)
  | [] => []
  | n :: rest => nodeFiles above n ++ nodesFiles above rest

end

/-- The files of a record and of all records below it. -/
def storedFiles (fields : List Field) (children : List NestedRelation) :
    List (List NestedRelation × String) :=
  (Field.attachments fields).map ([], ·) ++ nodesFiles [] children

theorem nodesFiles_eq_flatMap (above children : List NestedRelation) :
    nodesFiles above children = children.flatMap (nodeFiles above) := by
  induction children with
  | nil => rw [nodesFiles, List.flatMap_nil]
  | cons n rest ih => rw [nodesFiles, ih, List.flatMap_cons]

theorem nodeFiles_of_belongsToMany (h : n.relation.kind = .belongsToMany)
    (above : List NestedRelation) : nodeFiles above n = [] := by
  cases n
  rw [nodeFiles]
  exact if_pos h

theorem nodeFiles_eq (h : n.relation.kind ≠ .belongsToMany) (above : List NestedRelation) :
    nodeFiles above n = (Field.attachments n.fields).map (n :: above, ·) ++
      n.children.flatMap (nodeFiles (n :: above)) := by
  cases n
  rw [nodeFiles, nodesFiles_eq_flatMap]
  exact if_neg h

theorem exists_branch_of_mem_nodeFiles {roots : List NestedRelation} (n : NestedRelation)
    (h : Branch roots (n :: above)) (hfile : (branch, field) ∈ nodeFiles above n) :
    ∃ m rest, branch = m :: rest ∧ Branch roots (m :: rest) ∧
      m.relation.kind ≠ .belongsToMany ∧ field ∈ Field.attachments m.fields := by
  induction n using NestedRelation.induction_children generalizing above with
  | h n ih =>
    by_cases hkind : n.relation.kind = .belongsToMany
    · simp [nodeFiles_of_belongsToMany hkind] at hfile
    · rw [nodeFiles_eq hkind, List.mem_append, List.mem_flatMap] at hfile
      rcases hfile with hfile | ⟨child, hchild, hfile⟩
      · obtain ⟨_, hfield, heq⟩ := List.mem_map.1 hfile
        cases heq
        exact ⟨n, above, rfl, h, hkind, hfield⟩
      · exact ih child hchild (.deeper h hkind hchild) hfile

theorem Branch.nodeFiles_subset {roots : List NestedRelation} (h : Branch roots branch) :
    ∀ n above, branch = n :: above → nodeFiles above n ⊆ nodesFiles [] roots := by
  induction h with
  | @root n hn =>
    rintro _ _ ⟨⟩
    rw [nodesFiles_eq_flatMap]
    exact fun file hfile ↦ List.mem_flatMap_of_mem hn hfile
  | @deeper n child above _ hkind hchild ih =>
    rintro _ _ ⟨⟩
    refine List.Subset.trans (fun file hfile ↦ ?_) (ih n above rfl)
    rw [nodeFiles_eq hkind]
    exact List.mem_append_right _ (List.mem_flatMap_of_mem hchild hfile)

/-- The files of a tree are those of the requests in it that have records of their own. -/
theorem mem_storedFiles_iff : (branch, field) ∈ storedFiles fields children ↔
    branch = [] ∧ field ∈ Field.attachments fields ∨
      ∃ n above, branch = n :: above ∧ Branch children (n :: above) ∧
        n.relation.kind ≠ .belongsToMany ∧ field ∈ Field.attachments n.fields := by
  rw [storedFiles, List.mem_append]
  refine or_congr (by simp [and_comm, eq_comm]) ⟨fun hfile ↦ ?_, ?_⟩
  · rw [nodesFiles_eq_flatMap, List.mem_flatMap] at hfile
    obtain ⟨root, hroot, hfile⟩ := hfile
    exact exists_branch_of_mem_nodeFiles root (.root hroot) hfile
  · rintro ⟨n, above, rfl, hbranch, hkind, hfield⟩
    refine hbranch.nodeFiles_subset n above rfl ?_
    rw [nodeFiles_eq hkind]
    exact List.mem_append_left _ (List.mem_map_of_mem hfield)

/-! ## Which requests have files -/

theorem holdsFiles_iff : holdsFiles fields children = true ↔
    Field.attachments fields ≠ [] ∨ ∃ n ∈ children, n.relation.kind ≠ .belongsToMany ∧
      holdsFiles n.fields n.children = true := by
  have hany : anyHoldsFiles children = true ↔ ∃ n ∈ children,
      n.relation.kind ≠ .belongsToMany ∧ holdsFiles n.fields n.children = true := by
    induction children with
    | nil => simp [anyHoldsFiles]
    | cons n rest ih =>
      cases n
      simp [anyHoldsFiles, ih]
  rw [holdsFiles, Bool.or_eq_true, hany]
  simp

theorem nodeFiles_ne_nil_iff (n : NestedRelation) (above : List NestedRelation) :
    nodeFiles above n ≠ [] ↔
      n.relation.kind ≠ .belongsToMany ∧ holdsFiles n.fields n.children = true := by
  induction n using NestedRelation.induction_children generalizing above with
  | h n ih =>
    by_cases hkind : n.relation.kind = .belongsToMany
    · simp [nodeFiles_of_belongsToMany hkind, hkind]
    · have hbelow : n.children.flatMap (nodeFiles (n :: above)) ≠ [] ↔ ∃ child ∈ n.children,
          child.relation.kind ≠ .belongsToMany ∧ holdsFiles child.fields child.children = true := by
        rw [ne_eq, List.flatMap_eq_nil_iff]
        push Not
        exact exists_congr fun child ↦ and_congr_right fun hchild ↦ ih child hchild _
      rw [nodeFiles_eq hkind, holdsFiles_iff, ← hbelow]
      simp only [ne_eq, List.append_eq_nil_iff, List.map_eq_nil_iff, hkind, not_false_eq_true,
        true_and]
      tauto

theorem storedFiles_ne_nil_iff :
    storedFiles fields children ≠ [] ↔ holdsFiles fields children = true := by
  rw [storedFiles, nodesFiles_eq_flatMap, holdsFiles_iff, ne_eq, List.append_eq_nil_iff,
    List.flatMap_eq_nil_iff, List.map_eq_nil_iff, not_and_or]
  push Not
  exact or_congr_right (exists_congr fun n ↦ and_congr_right fun _ ↦ nodeFiles_ne_nil_iff n [])

theorem purgeNodes_ne_nil_iff (record path : String) : purgeNodes record path [n] ≠ [] ↔
    n.relation.kind ≠ .belongsToMany ∧ holdsFiles n.fields n.children = true := by
  obtain ⟨_, r, fields, children⟩ := n
  by_cases hkind : r.kind = .belongsToMany
  · simp [purgeNodes, hkind]
  · by_cases hfiles : holdsFiles fields children = true
    · simp [purgeNodes, hkind, hfiles]
      split <;> simp
    · simp [purgeNodes, hfiles]

/-- There is code exactly if there are files. -/
theorem purgeTree_ne_nil_iff :
    purgeTree fields record path children ≠ [] ↔ holdsFiles fields children = true := by
  rw [purgeTree, purgeNodes_eq_flatMap, holdsFiles_iff, ne_eq, List.append_eq_nil_iff,
    List.flatMap_eq_nil_iff, Attachment.purgeCode, List.map_eq_nil_iff, not_and_or]
  push Not
  refine or_congr_right (exists_congr fun n ↦ and_congr_right fun _ ↦ ?_)
  exact purgeNodes_ne_nil_iff record path

/-! ## The way to a record -/

/-- How code gets at the record of a level: the blocks it stands in, the expression for the record,
and the name of the level. -/
structure Access where
  blocks : List String
  record : String
  name : String

namespace Access

/-- From a record to one that is nested in it: each of them if there are several, otherwise the one
that is there. -/
def down (a : Access) (n : NestedRelation) : Access :=
  let name := pathName a.name n.relation.requestKey
  let accessor := s!"{a.record}->{n.relation.name}"
  let item := Role.item.variableOf name
  if n.relation.kind = .hasMany then
    ⟨a.blocks ++ [s!"foreach ({accessor} as {item})" ++ " \x7b"], item, name⟩
  else ⟨a.blocks ++ [s!"if ({accessor})" ++ " \x7b"], accessor, name⟩

/-- Down a branch, whose last request stands first. -/
def along (a : Access) : List NestedRelation → Access
  | [] => a
  | n :: above => (a.along above).down n

/-- Deletes a file of the record, if it has one. -/
def release (a : Access) (field : String) : Step :=
  ⟨a.blocks ++ [s!"if ({a.record}->{field})" ++ " \x7b"], s!"deleteFile({a.record}->{field});"⟩

/-- Deletes a file at the end of a branch. -/
def releaseOn (a : Access) (file : List NestedRelation × String) : Step :=
  (a.along file.1).release file.2

end Access

theorem steps_purgeCode (fields : List Field) (a : Access) :
    (allSteps (Attachment.purgeCode fields a.record)).map (Step.within a.blocks) =
      (Field.attachments fields).map a.release := by
  have hfield (field : String) :
      (steps (Attachment.purgeField a.record field)).map (Step.within a.blocks) =
        [a.release field] := by
    simp [Attachment.purgeField, Access.release, Step.within]
  simp only [Attachment.purgeCode, allSteps_eq_flatMap, List.flatMap_map, List.map_flatMap, hfield]
  exact List.flatMap_pure_eq_map _ _

theorem steps_purgeNodes_eq (hkind : n.relation.kind ≠ .belongsToMany)
    (hfiles : holdsFiles n.fields n.children = true) (a : Access) :
    (allSteps (purgeNodes a.record a.name [n])).map (Step.within a.blocks) =
      (allSteps (purgeTree n.fields (a.down n).record (a.down n).name n.children)).map
        (Step.within (a.down n).blocks) := by
  obtain ⟨_, r, fields, children⟩ := n
  replace hkind : r.kind ≠ .belongsToMany := hkind
  by_cases hmany : r.kind = .hasMany <;>
    simp [purgeNodes, hkind, hfiles, hmany, Access.down, Role.variableOf, Role.after, toString,
      Function.comp_def]

theorem steps_purgeTree_of (fields : List Field) (a : Access)
    (hchildren : ∀ child ∈ children,
      (allSteps (purgeNodes (a.along above).record (a.along above).name [child])).map
          (Step.within (a.along above).blocks) = (nodeFiles above child).map a.releaseOn) :
    (allSteps (purgeTree fields (a.along above).record (a.along above).name children)).map
        (Step.within (a.along above).blocks) =
      ((Field.attachments fields).map (above, ·) ++ children.flatMap (nodeFiles above)).map
        a.releaseOn := by
  rw [purgeTree, allSteps_append, List.map_append, steps_purgeCode, List.map_append, List.map_map,
    purgeNodes_eq_flatMap, allSteps_eq_flatMap, List.flatMap_assoc, List.map_flatMap,
    List.map_flatMap]
  refine congrArg₂ _ rfl (List.flatMap_congr fun child hchild ↦ ?_)
  rw [← hchildren child hchild, allSteps_eq_flatMap]

/-- The code for a nested request deletes its files and those below it, each once. -/
theorem steps_purgeNodes (n : NestedRelation) (above : List NestedRelation) (a : Access) :
    (allSteps (purgeNodes (a.along above).record (a.along above).name [n])).map
        (Step.within (a.along above).blocks) = (nodeFiles above n).map a.releaseOn := by
  induction n using NestedRelation.induction_children generalizing above with
  | h n ih =>
    by_cases hfiles : n.relation.kind ≠ .belongsToMany ∧ holdsFiles n.fields n.children = true
    · rw [steps_purgeNodes_eq hfiles.1 hfiles.2, nodeFiles_eq hfiles.1]
      exact steps_purgeTree_of n.fields a fun child hchild ↦ ih child hchild (n :: above)
    · have hnodes := (nodeFiles_ne_nil_iff n above).not.2 hfiles
      have hcode := (purgeNodes_ne_nil_iff (a.along above).record (a.along above).name).not.2 hfiles
      rw [not_not.1 hnodes, not_not.1 hcode]
      rfl

/-- Before a record goes, its files and those below it are deleted, each once. -/
theorem steps_purgeTree (fields : List Field) (children : List NestedRelation) (a : Access) :
    (allSteps (purgeTree fields a.record a.name children)).map (Step.within a.blocks) =
      (storedFiles fields children).map a.releaseOn := by
  rw [storedFiles, nodesFiles_eq_flatMap]
  exact steps_purgeTree_of fields a fun child _ ↦ steps_purgeNodes child [] a

/-! ## Empty blocks -/

theorem allFilled_purgeCode (fields : List Field) (record : String) :
    allFilled (Attachment.purgeCode fields record) = true := by
  rw [Attachment.purgeCode, allFilled_iff, List.forall_mem_map]
  intro field _
  rw [Attachment.purgeField, filled_braces_iff]
  exact ⟨List.cons_ne_nil _ _, rfl⟩

theorem allFilled_purgeTree_of (fields : List Field)
    (hchildren : ∀ child ∈ children, allFilled (purgeNodes record path [child]) = true) :
    allFilled (purgeTree fields record path children) = true := by
  rw [purgeTree, purgeNodes_eq_flatMap, allFilled_iff]
  intro s hs
  rcases List.mem_append.1 hs with hs | hs
  · exact allFilled_iff.1 (allFilled_purgeCode fields record) s hs
  · obtain ⟨child, hchild, hs⟩ := List.mem_flatMap.1 hs
    exact allFilled_iff.1 (hchildren child hchild) s hs

/-- No request without files leaves an empty block behind. -/
theorem allFilled_purgeNodes (n : NestedRelation) (record path : String) :
    allFilled (purgeNodes record path [n]) = true := by
  induction n using NestedRelation.induction_children generalizing record path with
  | h n ih =>
    obtain ⟨_, r, fields, children⟩ := n
    have hbody (record' path' : String) :
        allFilled (purgeTree fields record' path' children) = true :=
      allFilled_purgeTree_of fields fun child hchild ↦ ih child hchild record' path'
    by_cases hfiles : holdsFiles fields children = true
    · have hfull (record' path' : String) : purgeTree fields record' path' children ≠ [] :=
        purgeTree_ne_nil_iff.2 hfiles
      simp only [purgeNodes, hfiles]
      split
      · rfl
      · split <;> simp [allFilled, filled_braces_iff, hfull, hbody]
    · simp [purgeNodes, hfiles, allFilled]

theorem allFilled_purgeTree (fields : List Field) (record path : String)
    (children : List NestedRelation) : allFilled (purgeTree fields record path children) = true :=
  allFilled_purgeTree_of fields fun child _ ↦ allFilled_purgeNodes child record path

/-! ## Destroying a record -/

/-- How a `destroy` method gets at its record. -/
def destroyed (c : Configuration) : Access :=
  ⟨[s!"DB::transaction(function () use ({recordVariable c}) \x7b"], recordVariable c, ""⟩

/-- There is code for deleting files exactly if there are files, and no block of it is empty. What
a `destroy` method does is to delete each file of the record and of the records below it, once and
on the way to the record that has it, and then the record. -/
theorem allSteps_destroyBody (c : Configuration) :
    (∀ fields children record path, holdsFiles fields children = true ↔
      purgeTree fields record path children ≠ []) ∧
    (∀ fields children record path, allFilled (purgeTree fields record path children) = true) ∧
    (∀ branch field, (branch, field) ∈ storedFiles c.fields c.nested ↔
      branch = [] ∧ field ∈ Field.attachments c.fields ∨
        ∃ n above, branch = n :: above ∧ Branch c.nested (n :: above) ∧
          n.relation.kind ≠ .belongsToMany ∧ field ∈ Field.attachments n.fields) ∧
    allSteps (destroyBody c) = (storedFiles c.fields c.nested).map (destroyed c).releaseOn ++
      [⟨(destroyed c).blocks, s!"{recordVariable c}->delete();"⟩] := by
  refine ⟨fun _ _ _ _ ↦ purgeTree_ne_nil_iff.symm,
    fun fields children record path ↦ allFilled_purgeTree fields record path children,
    fun _ _ ↦ mem_storedFiles_iff, ?_⟩
  rw [← steps_purgeTree, destroyBody, destroyTransaction, allSteps_singleton, steps_block,
    allSteps_spaced]
  simp [destroyed, Step.within]

end Scaffold.Code
