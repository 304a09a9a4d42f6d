import Scaffold.Proofs.Nesting.Descent
import Scaffold.Proofs.Nesting.Nodes

/-!
# Where the nodes of a tree come from

Every node of a tree follows a relation that nested requests name, and shows the fields of an
entity. What holds of all relations and of all fields of a schema therefore holds in its trees.
-/

namespace Scaffold

/-- The node follows a request, and its fields, if there are any, are those of an entity. -/
structure NestedRelation.FromSchema (schema : Schema) (n : NestedRelation) : Prop where
  relation : ∃ name, n.relation ∈ schema.requests name
  fields : n.fields = [] ∨ ∃ name, Field.parseAll (schema.definitionsOf name) = .ok n.fields

namespace Resolve

open NestedRelation (FromSchema Within)

variable {schema : Schema} {m : Memory}

/-- A root of a tree comes from the schema if the nodes below it do. -/
theorem fromSchema_root {name parent : String} {r : Relation} {fields : List Field}
    {children : List NestedRelation} (hr : r ∈ schema.requests name)
    (hfields : fields = [] ∨ ∃ name, Field.parseAll (schema.definitionsOf name) = .ok fields)
    (hchildren : ∀ n, Within children n → n.FromSchema schema) :
    ∀ n, Within [⟨parent, r, fields, children⟩] n → n.FromSchema schema := by
  intro n hn
  obtain ⟨root, hroot, hn⟩ := NestedRelation.within_iff.1 hn
  obtain rfl := List.mem_singleton.1 hroot
  rcases hn with rfl | hn
  · exact ⟨⟨name, hr⟩, hfields⟩
  · exact hchildren n hn

theorem ends_node_fromSchema (hparsed : schema.Parsed) {depth : ℕ} {name : String}
    {visited : List String}
    (htree : ∀ (target : String) (path : List String) (m : Memory), m.Sound schema →
      Ends (treeTo schema depth target path) m
        (fun ns t ↦ (∀ n, Within ns n → n.FromSchema schema) ∧ t.Sound schema) fun _ _ ↦ True)
    {r : Relation} (hr : r ∈ schema.requests (Name.studly name)) (h : m.Sound schema) :
    Ends (node schema depth name visited r) m
      (fun n t ↦ (∀ n', Within [n] n' → n'.FromSchema schema) ∧ t.Sound schema)
      fun _ _ ↦ True := by
  have hno : ∀ n, Within [] n → n.FromSchema schema := by
    intro n hn
    obtain ⟨root, hroot, -⟩ := NestedRelation.within_iff.1 hn
    cases hroot
  rw [node]
  by_cases hkind : r.kind = .belongsToMany
  · simp only [hkind, beq_self_eq_true, if_true, ends_pure]
    exact ⟨fromSchema_root hr (.inl rfl) hno, h⟩
  by_cases hhas : schema.has r.target
  · simp only [hkind, hhas, beq_iff_eq, if_false, Bool.not_true, Bool.false_eq_true, ends_bind]
    obtain ⟨found, hfound⟩ := hparsed.exists_fields r.target
    refine (ends_fields h hfound).mono ?_ fun _ _ ↦ False.elim
    rintro _ t ⟨rfl, ht⟩
    split
    · rw [ends_pure]
      exact ⟨fromSchema_root hr (.inr ⟨_, hfound⟩) hno, ht⟩
    · rw [ends_bind]
      refine (htree r.target _ t ht).mono ?_ fun _ _ ↦ id
      rintro ns u ⟨hns, hu⟩
      rw [ends_pure]
      exact ⟨fromSchema_root hr (.inr ⟨_, hfound⟩) hns, hu⟩
  · simp only [hkind, hhas, beq_iff_eq, if_false, Bool.not_false, if_true, ends_bind]
    refine (ends_warn _ h).mono (fun _ t ht ↦ ?_) fun _ _ ↦ False.elim
    rw [ends_pure]
    exact ⟨fromSchema_root hr (.inl rfl) hno, ht⟩

theorem ends_treeTo_fromSchema (hparsed : schema.Parsed) (depth : ℕ) (name : String)
    (visited : List String) (h : m.Sound schema) :
    Ends (treeTo schema depth name visited) m
      (fun ns t ↦ (∀ n, Within ns n → n.FromSchema schema) ∧ t.Sound schema)
      fun _ _ ↦ True := by
  induction depth generalizing name visited m with
  | zero =>
    rw [treeTo, ends_throw]
    trivial
  | succ depth ih =>
    rw [treeTo_succ, ends_bind]
    refine (ends_nested _ h).mono ?_ fun _ _ ↦ False.elim
    rintro rs t ⟨rfl, ht⟩
    refine (Ends.mapM ht fun r hr t ht ↦
      ends_node_fromSchema hparsed (fun target path m h ↦ ih target path h) hr ht).mono ?_
        fun _ _ ↦ id
    rintro ns u ⟨hns, hu⟩
    refine ⟨fun n hn ↦ ?_, hu⟩
    obtain ⟨root, hroot, hn⟩ := NestedRelation.within_iff.1 hn
    obtain ⟨_, -, hall⟩ := exists_of_forall₂_of_mem_right hns hroot
    exact hall n (NestedRelation.within_iff.2 ⟨root, by simp, hn⟩)

end Resolve

end Scaffold
