import Scaffold.Proofs.Nesting.Requests

/-!
# The order of entries

The entries of a raw schema are checked one by one, and their names are only compared with each other.
If they are put in another order, the schema is still accepted, its entities are the same in that
order, and every name finds what it found before.
-/

namespace Scaffold

variable {entries entries' : List (Value × Value)} {schema schema' : Schema}

namespace Validation

/-- Identifiers with studly names that are new give no error. -/
theorem level_of_mem_namesFrom {keys : List String} {seen : List (String × String)}
    (hid : ∀ key ∈ keys, isIdentifier key)
    (hnew : ∀ key ∈ keys, seen.lookup (Name.studly key) = none)
    (hnodup : (keys.map Name.studly).Nodup) : ∀ i ∈ namesFrom seen keys, i.level = .warning := by
  induction keys generalizing seen with
  | nil => simp [namesFrom]
  | cons key rest ih =>
    rw [List.forall_mem_cons] at hid hnew
    rw [List.map_cons, List.nodup_cons] at hnodup
    have hrest (other : String) (hother : other ∈ rest) :
        ((Name.studly key, key) :: seen).lookup (Name.studly other) = none := by
      have hne : (Name.studly other == Name.studly key) = false := by
        rw [beq_eq_false_iff_ne]
        intro heq
        exact hnodup.1 (heq ▸ List.mem_map_of_mem hother)
      rw [List.lookup_cons, hne]
      exact hnew.2 other hother
    intro i hi
    simp only [namesFrom, hid.1, hnew.1, Bool.not_true, Bool.false_eq_true, if_false,
      List.append_nil, List.mem_append] at hi
    rcases hi with hspelling | hi
    · split at hspelling
      · cases hspelling
      · rw [List.mem_singleton.1 hspelling]
        rfl
    · exact ih hid.2 hrest hnodup.2 i hi

/-- The checks on names and shapes still pass. -/
theorem level_of_mem_shapeChecks (haccepted : schema.Accepted (.map entries))
    (hperm : entries'.Perm entries) : ∀ i ∈ shapeChecks entries', i.level = .warning := by
  obtain ⟨hid, hnodup⟩ := haccepted.names
  obtain ⟨_, heq, hshape, -⟩ := checks_of_isValid haccepted.isValid
  cases heq
  have hkeys : ((entries'.map Prod.fst).map Value.plain).Perm
      ((entries.map Prod.fst).map Value.plain) := (hperm.map Prod.fst).map Value.plain
  intro i hi
  rcases List.mem_append.1 hi with hname | hi
  · apply level_of_mem_namesFrom _ (fun _ _ ↦ rfl) ((hkeys.map Name.studly).nodup_iff.2 hnodup) i hname
    intro key hkey
    rw [List.map_map] at hkey
    obtain ⟨x, hx, rfl⟩ := List.mem_map.1 hkey
    exact hid x (hperm.subset hx)
  · apply hshape
    exact List.mem_append_right _ ((hperm.flatMap_right _).subset hi)

/-- The checks that see all entities still pass. -/
theorem level_of_mem_crossChecks (haccepted : schema.Accepted (.map entries))
    (hperm : schema'.Perm schema) : ∀ i ∈ crossChecks schema', i.level = .warning := by
  intro i hi
  have hmem (check : String × Entity → List Issue) (hi : i ∈ schema'.flatMap check) :
      i ∈ schema.flatMap check := (hperm.flatMap_right check).subset hi
  simp only [crossChecks, List.mem_append] at hi
  -- What a relation leads to is looked up among all entities, but it is only worth a warning.
  rcases hi with ((hi | hi) | hi) | hi
  · exact haccepted.level i (List.mem_append_left _
      (List.mem_append_left _ (List.mem_append_left _ (hmem _ hi))))
  · exact haccepted.level i (List.mem_append_left _
      (List.mem_append_left _ (List.mem_append_right _ (hmem _ hi))))
  · exact level_of_mem_checkRelations schema' i hi
  · exact haccepted.level i (List.mem_append_right _ (hmem _ hi))

end Validation

namespace Schema

/-- Entries whose keys differ are read one by one. -/
theorem ofEntries_of_forall₂
    (h : List.Forall₂ (fun x e ↦ e.1 = x.1.plain ∧ readEntity x.2 = .ok e.2) entries schema)
    (hnodup : (schema.map Prod.fst).Nodup) : ofEntries entries = .ok schema := by
  rw [ofEntries, bind_eq_ok_iff]
  refine ⟨schema, mapM_eq_ok_iff.2 (h.imp ?_), congrArg _ (Entries.ofList_of_nodup schema hnodup)⟩
  intro x e h
  obtain ⟨hkey, hread⟩ := h
  dsimp only
  rw [hread, ← hkey]
  rfl

/-- The entries of an accepted schema may stand in any order. -/
theorem Accepted.exists_perm (h : schema.Accepted (.map entries)) (hperm : entries'.Perm entries) :
    ∃ schema', Accepted (.map entries') schema' ∧ schema'.Perm schema := by
  obtain ⟨schema', hread, hschema⟩ := List.perm_comp_forall₂ hperm h.forall₂_entries
  have hnodup : (schema'.map Prod.fst).Nodup := (hschema.map Prod.fst).nodup_iff.2 h.nodup_keys
  have hentries := ofEntries_of_forall₂ hread hnodup
  have hne : entries' ≠ [] := by
    rintro rfl
    obtain rfl := hperm.symm.eq_nil
    exact absurd h.isValid (by decide)
  refine ⟨schema', ⟨?_, entries', rfl, hentries⟩, hschema⟩
  exact Validation.isValid_of_checks hne (Validation.level_of_mem_shapeChecks h hperm) hentries
    (Validation.level_of_mem_crossChecks h hschema)

/-- Among entities with different studly names, those that are found are those that are there. -/
theorem find?_eq_some_iff (hnodup : (schema.map fun e ↦ Name.studly e.1).Nodup) {name : String}
    {e : Entity} :
    schema.find? name = some e ↔ ∃ key, (key, e) ∈ schema ∧ Name.studly key = Name.studly name := by
  constructor
  · exact exists_of_find?
  · rintro ⟨key, hmem, hkey⟩
    exact find?_eq_of_mem hnodup hmem hkey.symm

theorem find?_perm (hnodup : (schema.map fun e ↦ Name.studly e.1).Nodup)
    (hperm : schema'.Perm schema) : schema'.find? = schema.find? := by
  funext name
  apply Option.ext
  intro e
  have hnodup' : (schema'.map fun e ↦ Name.studly e.1).Nodup :=
    (hperm.map _).nodup_iff.2 hnodup
  rw [find?_eq_some_iff hnodup, find?_eq_some_iff hnodup']
  simp only [hperm.mem_iff]

end Schema

end Scaffold
