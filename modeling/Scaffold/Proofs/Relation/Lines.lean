import Mathlib
import Scaffold.Proofs.Entries
import Scaffold.Relation.Block

/-!
# The lines of a relations block

A line of a block yields relations, or only a message if its kind is not known. The relations of a
block are what its lines yield, put together under their names (`readAll_eq_foldl_put`): none is
made up, so what holds of every relation that is read from an entry holds of those of a block.
-/

namespace Scaffold

theorem RelationKind.name_of_ofName? {s : String} {kind : RelationKind}
    (h : ofName? s = some kind) : kind.name = s := by
  simpa using List.find?_some h

namespace Relation

-- Otherwise comparing two lines of a block starts to run through the table of kinds.
attribute [local irreducible] RelationKind.ofName?

variable {r : Relation} {block : List (String × Targets)}

/-! ## Reading line by line -/

/-- Reads one line of a block. -/
def readLine (owner : String) :
    List Relation × List String → String × Targets → List Relation × List String
  | (relations, messages), (written, targets) =>
    match RelationKind.ofName? (RelationKind.normalize written) with
    | some kind => (addEntries kind relations targets.entries, messages)
    | none => (relations, messages ++ [unknownKind owner written])

theorem readAll_eq_foldl (owner : String) (block : List (String × Targets)) :
    readAll owner block = block.foldl (readLine owner) ([], []) := rfl

/-- A block is read by its entries. -/
theorem readAll_eq_of_entries (owner : String) {block block' : List (String × Targets)}
    (h : List.Forall₂ (fun e e' ↦ e'.1 = e.1 ∧ e'.2.entries = e.2.entries) block block') :
    readAll owner block' = readAll owner block := by
  rw [readAll_eq_foldl, readAll_eq_foldl]
  generalize (([], []) : List Relation × List String) = acc
  induction h generalizing acc with
  | nil => rfl
  | @cons e e' rest rest' he _ ih =>
    have hline : readLine owner acc e' = readLine owner acc e := by
      rw [readLine, readLine, he.1, he.2]
    rw [List.foldl_cons, List.foldl_cons, hline, ih]

/-- What the entries of one line yield: nothing if the kind is not known. -/
def ofLine : String × Targets → List Relation
  | (written, targets) =>
    match RelationKind.ofName? (RelationKind.normalize written) with
    | some kind => targets.entries.filterMap (ofItem? kind)
    | none => []

/-- What the entries of a block yield, one after the other. -/
def yielded (block : List (String × Targets)) : List Relation := block.flatMap ofLine

/-- A line either adds relations or only a message. -/
theorem readLine_fst (owner : String) (acc : List Relation × List String)
    (line : String × Targets) :
    (readLine owner acc line).1 = (ofLine line).foldl put acc.1 := by
  rw [readLine, ofLine]
  generalize RelationKind.ofName? (RelationKind.normalize line.1) = kind
  cases kind <;> rfl

theorem readAll_eq_foldl_put (owner : String) (block : List (String × Targets)) :
    (readAll owner block).1 = (yielded block).foldl put [] := by
  have hline (acc : List Relation × List String) :
      (block.foldl (readLine owner) acc).1 = (yielded block).foldl put acc.1 := by
    induction block generalizing acc with
    | nil => rfl
    | cons line rest ih =>
      rw [List.foldl_cons, ih, readLine_fst, ← List.foldl_append]
      rfl
  rw [readAll_eq_foldl, hline]

/-- The owner of a block only occurs in messages. -/
theorem readAll_owner (owner owner' : String) (block : List (String × Targets)) :
    (readAll owner block).1 = (readAll owner' block).1 := by
  rw [readAll_eq_foldl_put, readAll_eq_foldl_put]

/-! ## Relations under their names -/

/-- Relations as entries under their names. -/
def byName (relations : List Relation) : List (String × Relation) :=
  relations.map fun r ↦ (r.name, r)

theorem byName_cons (r : Relation) (rest : List Relation) :
    byName (r :: rest) = (r.name, r) :: byName rest := rfl

theorem keys_byName (relations : List Relation) :
    (byName relations).map Prod.fst = relations.map (·.name) := by
  rw [byName, List.map_map]
  rfl

theorem byName_put (relations : List Relation) (r : Relation) :
    byName (put relations r) = Entries.put (byName relations) r.name r := by
  induction relations with
  | nil => rfl
  | cons s rest ih =>
    rw [put, byName_cons, Entries.put]
    split
    · next h => rw [byName_cons, beq_iff_eq.1 h]
    · rw [byName_cons, ih]

theorem byName_foldl_put (given relations : List Relation) :
    byName (given.foldl put relations) = Entries.putAll (byName relations) (byName given) := by
  induction given generalizing relations with
  | nil => rfl
  | cons r rest ih => rw [List.foldl_cons, ih, byName_put, byName_cons, Entries.putAll_cons]

/-- Putting relations together is making entries of them under their names. -/
theorem byName_collected (given : List Relation) :
    byName (given.foldl put []) = Entries.ofList (byName given) := byName_foldl_put given []

theorem nodup_names_collected (given : List Relation) :
    ((given.foldl put []).map (·.name)).Nodup := by
  rw [← keys_byName, byName_collected]
  exact Entries.nodup_keys_ofList _

theorem mem_of_mem_collected {given : List Relation} (h : r ∈ given.foldl put []) : r ∈ given := by
  have hmem : (r.name, r) ∈ byName (given.foldl put []) := List.mem_map_of_mem h
  rw [byName_collected] at hmem
  obtain ⟨s, hs, heq⟩ := List.mem_map.1 (Entries.mem_of_mem_ofList hmem)
  obtain rfl := (Prod.mk.inj heq).2
  exact hs

/-! ## What relations are read from -/

/-- A relation is read from an entry of a line, and its kind is written before the entries. -/
theorem exists_ofItem?_of_mem_yielded (h : r ∈ yielded block) :
    ∃ line ∈ block, RelationKind.normalize line.1 = r.kind.name ∧
      ∃ entry ∈ line.2.entries, ofItem? r.kind entry = some r := by
  obtain ⟨line, hline, hr⟩ := List.mem_flatMap.1 h
  refine ⟨line, hline, ?_⟩
  rw [ofLine] at hr
  cases hkind : RelationKind.ofName? (RelationKind.normalize line.1) with
  | none =>
    rw [hkind] at hr
    cases hr
  | some kind =>
    rw [hkind] at hr
    obtain ⟨entry, hentry, hitem⟩ := List.mem_filterMap.1 hr
    obtain rfl : kind = r.kind := by
      have hfields := hitem
      simp only [ofItem?, Option.ite_none_left_eq_some, Option.some.injEq] at hfields
      rw [← hfields.2]
    exact ⟨(RelationKind.name_of_ofName? hkind).symm, entry, hentry, hitem⟩

theorem mem_yielded_of_mem_readAll {owner : String} (h : r ∈ (readAll owner block).1) :
    r ∈ yielded block := by
  rw [readAll_eq_foldl_put] at h
  exact mem_of_mem_collected h

/-- What holds of every relation that is read from an entry holds of those of a block. -/
theorem forall_mem_readAll {p : Relation → Prop}
    (hp : ∀ kind entry r, ofItem? kind entry = some r → p r) (owner : String)
    (block : List (String × Targets)) : ∀ r ∈ (readAll owner block).1, p r := by
  intro r hr
  obtain ⟨_, -, -, entry, -, hitem⟩ :=
    exists_ofItem?_of_mem_yielded (mem_yielded_of_mem_readAll hr)
  exact hp r.kind entry r hitem

end Relation

end Scaffold
