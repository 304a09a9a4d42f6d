import Mathlib
import Scaffold.Proofs.Configuration.Relations

/-!
# Relations that are loaded with a record

The names that an entity lists for loading go into the generated calls as they are written, although
validation and nested requests accept a relation under its request key as well. If an entity lists
nothing, its nested relations are loaded, under their own names. So the calls name methods of the
model except for request keys (`order_items` of `orderItems`), and for entities whose relations are
not found again.
-/

namespace Scaffold

namespace Schema

variable {raw : Value} {schema : Schema}

theorem relationsOf_studly (schema : Schema) (name : String) :
    schema.relationsOf (Name.studly (Name.studly name)) = schema.relationsOf (Name.studly name) := by
  unfold relationsOf
  rw [Name.studly_studly_studly]

/-- Without a warning, all listed names are names or request keys of the entity's relations. -/
theorem Accepted.eagerLoads (h : Accepted raw schema) {e : String × Entity} (he : e ∈ schema)
    (hquiet : ∀ name, Issue.unknownEagerLoad e.1 name ∉ Validation.issues raw) :
    ∀ name ∈ e.2.eagerLoads,
      name ∈ Validation.requestNames (Relation.readAll "" e.2.relations).1 := by
  intro name hname
  by_contra hno
  apply hquiet name
  apply h.mem_issues
  have hissue : Issue.unknownEagerLoad e.1 name ∈ Validation.checkRelations schema := by
    unfold Validation.checkRelations
    rw [List.mem_flatMap]
    refine ⟨e, he, ?_⟩
    unfold Validation.checkEntityRelations
    apply List.mem_append_right
    rw [List.mem_filterMap]
    exact ⟨name, hname, by rw [if_neg (by simpa using hno)]⟩
  simp [Validation.crossChecks, hissue]

end Schema

namespace Configuration

open Schema

variable {raw : Value} {schema : Schema} {m : Memory} {e : String × Entity} {c : Configuration}

/-- Every name that the generated code loads (`Code.eagerList`) has a method in the generated
model (`Relation.method`). -/
def LoadsRelations (c : Configuration) : Prop :=
  ∀ name ∈ c.eagerLoads, name ∈ c.relations.map (·.name)

/-- A nested relation is one of the relations of its configuration. -/
theorem FromStudly.mem_relations_of_nested (h : FromStudly schema e c) :
    ∀ n ∈ c.nested, n.relation ∈ c.relations := by
  intro n hn
  have hrequest : n.relation ∈ schema.requests (Name.studly (Name.studly e.1)) := by
    rw [← h.nested]
    exact List.mem_map_of_mem hn
  have hread := mem_relationsOf_of_mem_requests hrequest
  rw [relationsOf_studly, relationsOf_studly] at hread
  rw [h.relations]
  exact hread

/-- Only names that the entity lists itself can lack a relation. -/
theorem FromStudly.loadsRelations_iff (h : FromStudly schema e c)
    (heager : c.eagerLoads =
      if e.2.eagerLoads.isEmpty then c.nested.map (·.relation.name) else e.2.eagerLoads) :
    c.LoadsRelations ↔ ∀ name ∈ e.2.eagerLoads, name ∈ c.relations.map (·.name) := by
  unfold LoadsRelations
  by_cases hlist : e.2.eagerLoads = []
  · rw [heager, hlist]
    apply iff_of_true
    · intro name hname
      obtain ⟨n, hn, hsame⟩ := List.mem_map.1 hname
      rw [← hsame]
      exact List.mem_map_of_mem (h.mem_relations_of_nested n hn)
    · exact List.forall_mem_nil _
  · rw [heager, if_neg (by simpa using hlist)]

/-- What is said of the names that the code for one entity loads. -/
structure Loads (raw : Value) (schema : Schema) (e : String × Entity) (c : Configuration) :
    Prop where
  /-- Only names that the entity lists itself, and that are no names of its relations as they are
  found again, lack a method. -/
  loads_iff : c.LoadsRelations ↔
    ∀ name ∈ e.2.eagerLoads, name ∈ (schema.relationsOf (Name.studly e.1)).map (·.name)
  /-- Without a warning and under a stable name, these are the request keys that are no names. -/
  loads_iff_of_quiet :
    (∀ name, Issue.unknownEagerLoad e.1 name ∉ Validation.issues raw) →
    Name.studly (Name.studly e.1) = Name.studly e.1 →
    (∀ name ∈ c.eagerLoads, name ∈ Validation.requestNames c.relations) ∧
      (c.LoadsRelations ↔ ∀ name ∈ e.2.eagerLoads,
        name ∈ c.relations.map Relation.requestKey → name ∈ c.relations.map (·.name))

theorem FromStudly.loads (haccepted : Accepted raw schema) (he : e ∈ schema)
    (h : FromStudly schema e c)
    (heager : c.eagerLoads =
      if e.2.eagerLoads.isEmpty then c.nested.map (·.relation.name) else e.2.eagerLoads) :
    Loads raw schema e c where
  loads_iff := by
    rw [h.loadsRelations_iff heager, h.relations]
  loads_iff_of_quiet hquiet hstable := by
    have hlisted : ∀ name ∈ e.2.eagerLoads, name ∈ Validation.requestNames c.relations := by
      rw [(h.keeps haccepted he hstable).relations]
      exact haccepted.eagerLoads he hquiet
    constructor
    · intro name hname
      rw [heager] at hname
      split at hname
      · obtain ⟨n, hn, hsame⟩ := List.mem_map.1 hname
        rw [← hsame]
        apply List.mem_append_left
        exact List.mem_map_of_mem (h.mem_relations_of_nested n hn)
      · exact hlisted name hname
    · rw [h.loadsRelations_iff heager]
      apply forall₂_congr
      intro name hname
      constructor
      · intro hmem _
        exact hmem
      · intro honly
        rcases List.mem_append.1 (hlisted name hname) with hmem | hkey
        · exact hmem
        · exact honly hkey

/-- In an accepted schema, the code for each entity loads relations of its model exactly if the
entity lists no other name. Where validation does not warn of a listed name, and the entity is found
again, what is loaded is a relation or its request key, so only request keys are in the way. -/
theorem ends_buildAll_loads (haccepted : Accepted raw schema) (h : m.Sound schema) :
    Ends (buildAll schema) m (fun cs _ ↦ List.Forall₂ (Loads raw schema) schema cs)
      fun reason _ ↦ reason = .resolve .endless := by
  have hall : Ends (buildAll schema) m
      (fun cs t ↦ List.Forall₂ (Loads raw schema) schema cs ∧ t.Sound schema)
      fun reason _ ↦ reason = .resolve .endless := by
    unfold buildAll
    apply Ends.mapM h
    intro e he t ht
    apply ((ends_build haccepted he ht).and (ends_build_takesFrom schema e t)).mono
    · intro c u hc
      exact ⟨hc.1.1.loads haccepted he hc.2.eagerLoads, hc.1.2⟩
    · intro reason u hreason
      exact hreason.1.1
  exact hall.mono (fun _ _ hcs ↦ hcs.1) fun _ _ hreason ↦ hreason

/-- Orders that load their items under the request key of the relation. -/
def ordersEntries : List (Value × Value) :=
  [(.text "Order", .map [(.text "fields", .map [(.text "number", .text "string")]),
      (.text "relations", .map [(.text "hasMany", .text "OrderItem")]),
      (.text "nested_requests", .list [.text "order_items"]),
      (.text "with", .list [.text "order_items"])]),
    (.text "OrderItem", .map [(.text "fields", .map [(.text "amount", .text "integer")])])]

def orders : Schema :=
  [("Order", ⟨[("number", "string")], [("hasMany", .line "OrderItem")], ["order_items"], .unset, [],
      ["order_items"], []⟩),
    ("OrderItem", ⟨[("amount", "integer")], [], [], .unset, [], [], []⟩)]

/-- Validation says nothing about them, and yet the model has no method of that name. -/
theorem orders_not_loadsRelations :
    Accepted (.map ordersEntries) orders ∧ Memory.empty.Sound orders ∧
      Validation.issues (.map ordersEntries) = [] ∧
      ∃ cs t, (buildAll orders).run.run Memory.empty = (.ok cs, t) ∧
        ∃ c ∈ cs, c.originalName = "Order" ∧ ¬c.LoadsRelations := by
  have haccepted : Accepted (.map ordersEntries) orders :=
    ⟨by decide +kernel, ordersEntries, rfl, rfl⟩
  have hissues : Validation.issues (.map ordersEntries) = [] := by
    rw [← List.isEmpty_iff]
    decide +kernel
  have hempty := Memory.sound_empty orders
  refine ⟨haccepted, hempty, hissues, ?_⟩
  obtain ⟨cs, t, hrun, htest⟩ := exists_run_of_passes (buildAll orders) Memory.empty
    (fun cs _ ↦ cs.head?.any fun c : Configuration ↦ decide (c.originalName = "Order" ∧
      c.relations.map Relation.requestKey = ["order_items"] ∧
      c.relations.map (·.name) = ["orderItems"])) (by decide +kernel)
  refine ⟨cs, t, hrun, ?_⟩
  have hloads := (ends_of_run_ok hrun).1 (ends_buildAll_loads haccepted hempty)
  cases hloads with
  | cons hfirst hrest =>
    rename_i c cs
    obtain ⟨hname, hkeys, hnames⟩ : c.originalName = "Order" ∧
        c.relations.map Relation.requestKey = ["order_items"] ∧
        c.relations.map (·.name) = ["orderItems"] := by
      simpa using htest
    refine ⟨c, List.mem_cons_self, hname, ?_⟩
    have hquiet : ∀ name, Issue.unknownEagerLoad "Order" name ∉
        Validation.issues (.map ordersEntries) := by
      intro name
      rw [hissues]
      exact List.not_mem_nil
    rw [(hfirst.loads_iff_of_quiet hquiet (by decide)).2, hkeys, hnames]
    decide

end Configuration

end Scaffold
