import Mathlib
import Scaffold.Nesting.Resolver
import Scaffold.Proofs.Ends
import Scaffold.Proofs.Relation.Lines
import Scaffold.Proofs.Schema.Accepted

/-!
# What nested requests lead to

A resolver answers from its memory what it would work out afresh (`Memory.Sound`), so each of its
questions has an answer that depends on the schema only: the relations under a name
(`Schema.relationsOf`) and those that the nested requests under it follow (`Schema.requests`).
-/

namespace Scaffold

/-! ## Relations -/

namespace Relation

/-- Targets are studly case of what was written. -/
def Spelled (r : Relation) : Prop := ∃ written, r.target = Name.studly written

theorem spelled_of_ofItem? {kind : RelationKind} {entry : String} {r : Relation}
    (h : ofItem? kind entry = some r) : r.Spelled := by
  simp only [ofItem?, beq_iff_eq, Option.ite_none_left_eq_some, Option.some.injEq] at h
  exact ⟨Text.strip (Text.cutFirst ':' entry).1, by rw [← h.2]⟩

theorem spelled_of_mem_readAll (owner : String) (block : List (String × Targets)) :
    ∀ r ∈ (readAll owner block).1, r.Spelled :=
  forall_mem_readAll (fun _ _ _ h ↦ spelled_of_ofItem? h) owner block

end Relation

/-! ## Answers -/

namespace Schema

variable {schema : Schema} {name : String}

theorem has_iff : schema.has name ↔ ∃ e ∈ schema, Name.studly e.1 = Name.studly name := by
  simp [has, find?]

/-- Entities whose names differ in studly case are found under every spelling of their name. -/
theorem find?_eq_of_mem (h : (schema.map fun e ↦ Name.studly e.1).Nodup)
    {e : String × Entity} (he : e ∈ schema) (hname : Name.studly name = Name.studly e.1) :
    schema.find? name = some e.2 := by
  have hfilter : (schema.filter fun e ↦ Name.studly e.1 == Name.studly name) = [e] := by
    obtain ⟨before, after, rfl⟩ := List.append_of_mem he
    rw [List.map_append, List.map_cons, List.nodup_append, List.nodup_cons] at h
    have hbefore : ∀ x ∈ before, ¬Name.studly x.1 = Name.studly name := by
      intro x hx heq
      exact h.2.2 _ (List.mem_map_of_mem hx) _ (by simp) (heq.trans hname)
    have hafter : ∀ x ∈ after, ¬Name.studly x.1 = Name.studly name := by
      intro x hx heq
      exact h.2.1.1 (List.mem_map.2 ⟨x, hx, heq.trans hname⟩)
    rw [List.filter_append, List.filter_cons_of_pos (by simpa using hname.symm),
      List.filter_eq_nil_iff.2 (by simpa using hbefore),
      List.filter_eq_nil_iff.2 (by simpa using hafter)]
    rfl
  simp [find?, hfilter]

theorem exists_of_find? {e : Entity} (h : schema.find? name = some e) :
    ∃ key, (key, e) ∈ schema ∧ Name.studly key = Name.studly name := by
  obtain ⟨⟨key, e'⟩, hlast, rfl⟩ := Option.map_eq_some_iff.1 h
  have hmem := List.mem_of_getLast? hlast
  rw [List.mem_filter] at hmem
  exact ⟨key, hmem.1, by simpa using hmem.2⟩

/-- The relations that are read under a name. -/
def relationsOf (schema : Schema) (name : String) : List Relation :=
  (Relation.readAll "" (((schema.find? (Name.studly name)).map (·.relations)).getD [])).1

/-- The field definitions under a name. -/
def definitionsOf (schema : Schema) (name : String) : List (String × String) :=
  ((schema.find? (Name.studly name)).map (·.fields)).getD []

/-- The relations among `relations` that requests name and that can be nested, each once, in the
order of first mention. -/
def named (relations : List Relation) (requests : List String) : List Relation :=
  ((requests.filterMap (Resolve.requested? relations)).filter Relation.isNestable).eraseDups

/-- The relations that the nested requests under a name follow. -/
def requests (schema : Schema) (name : String) : List Relation :=
  match schema.find? (Name.studly name) with
  | none => []
  | some e => named (schema.relationsOf (Name.studly name)) e.nestedRequests

theorem mem_of_requested? {relations : List Relation} {request : String} {r : Relation}
    (h : Resolve.requested? relations request = some r) : r ∈ relations := by
  rw [Resolve.requested?, Option.or_eq_some_iff] at h
  rcases h with h | ⟨-, h⟩
  · exact List.mem_of_find?_eq_some h
  · exact List.mem_reverse.1 (List.mem_of_find?_eq_some h)

/-- Requests follow relations that are read under the same name. -/
theorem mem_relationsOf_of_mem_requests {r : Relation} (h : r ∈ schema.requests name) :
    r ∈ schema.relationsOf (Name.studly name) := by
  rw [requests] at h
  split at h
  · simp at h
  · rw [named, List.mem_eraseDups, List.mem_filter, List.mem_filterMap] at h
    obtain ⟨⟨request, -, hrequest⟩, -⟩ := h
    exact mem_of_requested? hrequest

theorem spelled_of_mem_requests {r : Relation} (h : r ∈ schema.requests name) : r.Spelled :=
  Relation.spelled_of_mem_readAll _ _ r (mem_relationsOf_of_mem_requests h)

end Schema

/-- A memory holds what a resolver would work out afresh. -/
structure Memory.Sound (schema : Schema) (m : Memory) : Prop where
  relations : ∀ name rs, m.relations.lookup (Name.studly name) = some rs →
    rs = schema.relationsOf name
  fields : ∀ name fs, m.fields.lookup (Name.studly name) = some fs →
    Field.parseAll (schema.definitionsOf name) = .ok fs

theorem Memory.sound_empty (schema : Schema) : Memory.empty.Sound schema :=
  ⟨by simp [Memory.empty], by simp [Memory.empty]⟩

theorem lookup_cons_studly {α : Type} {key name : String} {a b : α} {l : List (String × α)}
    (h : ((Name.studly key, a) :: l).lookup (Name.studly name) = some b) :
    Name.studly name = Name.studly key ∧ b = a ∨ l.lookup (Name.studly name) = some b := by
  rw [List.lookup_cons] at h
  by_cases heq : Name.studly name = Name.studly key
  · simp only [heq, beq_self_eq_true, Option.some.injEq] at h
    exact .inl ⟨heq, h.symm⟩
  · have hb : (Name.studly name == Name.studly key) = false := by simpa using heq
    rw [hb] at h
    exact .inr h

variable {schema : Schema} {m : Memory}

theorem Memory.Sound.add_relations (h : m.Sound schema) (name : String) :
    { m with relations := (Name.studly name, schema.relationsOf name) :: m.relations }.Sound
      schema := by
  refine ⟨fun other rs hrs ↦ ?_, h.fields⟩
  rcases lookup_cons_studly hrs with ⟨heq, rfl⟩ | hrs
  · rw [Schema.relationsOf, Schema.relationsOf, heq]
  · exact h.relations other rs hrs

theorem Memory.Sound.add_fields (h : m.Sound schema) {name : String} {fields : List Field}
    (hparse : Field.parseAll (schema.definitionsOf name) = .ok fields) :
    { m with fields := (Name.studly name, fields) :: m.fields }.Sound schema := by
  refine ⟨h.relations, fun other fs hfs ↦ ?_⟩
  rcases lookup_cons_studly hfs with ⟨heq, rfl⟩ | hfs
  · rw [Schema.definitionsOf, heq]
    exact hparse
  · exact h.fields other fs hfs

namespace Resolve

theorem ends_warn (message : String) (h : m.Sound schema) :
    Ends (warn message) m (fun _ t ↦ t.Sound schema) fun _ _ ↦ False := by
  rw [warn, ends_bind, ends_get]
  split
  · rwa [ends_pure]
  · rw [ends_set]
    exact ⟨h.relations, h.fields⟩

theorem ends_warnAll (messages : List String) (h : m.Sound schema) :
    Ends (warnAll messages) m (fun _ t ↦ t.Sound schema) fun _ _ ↦ False := by
  induction messages generalizing m with
  | nil => rwa [warnAll, ends_pure]
  | cons message rest ih =>
    rw [warnAll, ends_bind]
    exact (ends_warn message h).mono (fun _ t ht ↦ ih ht) fun _ _ ↦ id

/-- The relations of an entity are answered as they would be worked out afresh. -/
theorem ends_relations (name : String) (h : m.Sound schema) :
    Ends (relations schema name) m
      (fun rs t ↦ rs = schema.relationsOf name ∧ t.Sound schema) fun _ _ ↦ False := by
  rw [relations, ends_bind, ends_get]
  rcases hknown : m.relations.lookup (Name.studly name) with - | known
  · simp only [ends_bind, ends_modify, ends_pure]
    have hfresh := h.add_relations name
    rw [Schema.relationsOf, Relation.readAll_owner "" (Name.studly name)] at hfresh ⊢
    have hwarn (messages : List String) (t : Memory) (ht : t.Sound schema) :=
      ends_warnAll messages ht
    refine (hwarn _ _ ?_).mono (fun _ t ht ↦ ⟨rfl, ht⟩) fun _ _ ↦ id
    exact ⟨hfresh.relations, hfresh.fields⟩
  · exact (ends_pure known).2 ⟨h.relations name known hknown, h⟩

/-- Field definitions that can be parsed are, on first use. -/
theorem ends_fields {name : String} {fields : List Field} (h : m.Sound schema)
    (hparse : Field.parseAll (schema.definitionsOf name) = .ok fields) :
    Ends (Resolve.fields schema name) m (fun fs t ↦ fs = fields ∧ t.Sound schema)
      fun _ _ ↦ False := by
  rw [Resolve.fields, ends_bind, ends_get]
  rcases hknown : m.fields.lookup (Name.studly name) with - | known
  · have hparse' := hparse
    rw [Schema.definitionsOf] at hparse'
    simp only [hparse', ends_bind, ends_modify, ends_pure, true_and]
    exact h.add_fields hparse
  · have := h.fields name known hknown
    rw [hparse] at this
    exact (ends_pure known).2 ⟨(Except.ok.inj this).symm, h⟩

/-- Selecting adds what is named and not chosen yet. -/
theorem ends_select (studly : String) (relations : List Relation) (requests : List String)
    (chosen : List Relation) (h : m.Sound schema) :
    Ends (select studly relations requests chosen) m
      (fun rs t ↦ rs = chosen ++ (((requests.filterMap (requested? relations)).filter
        Relation.isNestable).filter fun r ↦ !chosen.contains r).eraseDups ∧ t.Sound schema)
      fun _ _ ↦ False := by
  induction requests generalizing chosen m with
  | nil => simpa [select] using h
  | cons request rest ih =>
    rw [select]
    rcases hnamed : requested? relations request with - | r
    · simp only [ends_bind, List.filterMap_cons_none hnamed]
      exact (ends_warn _ h).mono (fun _ t ht ↦ ih chosen ht) fun _ _ ↦ id
    · rw [List.filterMap_cons_some hnamed]
      by_cases hnest : r.isNestable
      · by_cases hmem : r ∈ chosen
        · simpa [hnest, hmem] using ih chosen h
        · have hlater (rs : List Relation) :
              (rs.filter fun s ↦ !(chosen ++ [r]).contains s) =
                (rs.filter fun s ↦ !chosen.contains s).filter fun s ↦ !s == r := by
            rw [List.filter_filter]
            refine List.filter_congr fun s _ ↦ ?_
            by_cases heq : s = r <;> simp [heq]
          have := ih (chosen ++ [r]) h
          rw [hlater] at this
          simpa [hnest, hmem, List.eraseDups_cons] using this
      · simp only [hnest, Bool.not_false, if_true, ends_bind]
        rw [List.filter_cons_of_neg hnest]
        exact (ends_warn _ h).mono (fun _ t ht ↦ ih chosen ht) fun _ _ ↦ id

theorem ends_nested (name : String) (h : m.Sound schema) :
    Ends (nested schema name) m
      (fun rs t ↦ rs = schema.requests name ∧ t.Sound schema) fun _ _ ↦ False := by
  rw [nested, Schema.requests]
  rcases schema.find? (Name.studly name) with - | e
  · exact (ends_pure []).2 ⟨rfl, h⟩
  · simp only [ends_bind]
    refine (ends_relations _ h).mono ?_ fun _ _ ↦ id
    rintro _ t ⟨rfl, ht⟩
    refine (ends_select _ _ e.nestedRequests [] ht).mono ?_ fun _ _ ↦ id
    rintro rs u ⟨rfl, hu⟩
    exact ⟨by simp [Schema.named], hu⟩

end Resolve

end Scaffold
