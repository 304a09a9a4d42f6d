import Mathlib
import Scaffold.Configuration.Basic
import Scaffold.Proofs.Nesting.Origin

/-!
# The relations of configurations

A configuration takes its fields from the definition at hand, but its relations and nested
requests from a resolver, which looks the definition up again by the studly name. The look-up
applies studly case once more. It finds the definition exactly if that changes nothing: an entity
`a_b_c` becomes `ABC` and is then looked for as `Abc`, so it loses its relations.
-/

namespace Scaffold

namespace Configuration

open Schema

variable {raw : Value} {schema : Schema} {m : Memory}

/-- The configuration has the relations of the definition, and a tree of nested requests for each
of those that the definition names. -/
structure Keeps (d : Entity) (c : Configuration) : Prop where
  relations : c.relations = (Relation.readAll "" d.relations).1
  nested : c.nested.map (·.relation) =
    named (Relation.readAll "" d.relations).1 d.nestedRequests

/-- The fields of an entity and what is found for its studly name are worked out, and its tree has
an end. -/
structure FromStudly (schema : Schema) (e : String × Entity) (c : Configuration) : Prop where
  originalName : c.originalName = e.1
  studly : c.studly = Name.studly e.1
  fields : Field.parseAll e.2.fields = .ok c.fields
  relations : c.relations = schema.relationsOf (Name.studly e.1)
  nested : c.nested.map (·.relation) = schema.requests (Name.studly (Name.studly e.1))
  fromSchema : ∀ n, NestedRelation.Within c.nested n → n.FromSchema schema
  not_descends : ¬schema.Descends (Resolve.enough schema) (Name.studly e.1) []

/-- The entities of an accepted schema can be worked out unless a tree has no end. -/
theorem ends_build (haccepted : Accepted raw schema) {e : String × Entity} (he : e ∈ schema)
    (h : m.Sound schema) :
    Ends (build schema e.1 e.2) m (fun c t ↦ FromStudly schema e c ∧ t.Sound schema)
      fun reason _ ↦ reason = .resolve .endless ∧
        schema.Descends (Resolve.enough schema) (Name.studly e.1) [] := by
  obtain ⟨fields, hfields⟩ := haccepted.fields he
  obtain ⟨toggles, htoggles⟩ := haccepted.toggles he
  have hparsed : schema.Parsed := fun e he ↦ haccepted.fields he
  rw [build]
  simp only [ends_bind, ends_adapt, hfields, htoggles, ends_pure]
  refine ((Resolve.ends_treeTo hparsed _ (Name.studly e.1) [] h).and
    (Resolve.ends_treeTo_fromSchema hparsed _ (Name.studly e.1) [] h)).mono ?_ ?_
  · rintro ns t ⟨⟨hns, hwalk, ht⟩, hnodes, -⟩
    refine (Resolve.ends_relations _ ht).mono ?_ fun _ _ ↦ False.elim
    rintro rs u ⟨rfl, hu⟩
    exact ⟨⟨rfl, rfl, hfields, rfl, hns, hnodes, hwalk⟩, hu⟩
  · rintro reason t ⟨⟨rfl, hwalk⟩, -⟩
    exact ⟨rfl, hwalk⟩

theorem ends_buildAll (haccepted : Accepted raw schema) (h : m.Sound schema) :
    Ends (buildAll schema) m
      (fun cs t ↦ List.Forall₂ (fun e c ↦ e ∈ schema ∧ FromStudly schema e c) schema cs ∧
        t.Sound schema)
      fun reason _ ↦ reason = .resolve .endless :=
  Ends.mapM h fun _ he _ ht ↦ (ends_build haccepted he ht).mono
    (fun _ _ hc ↦ ⟨⟨he, hc.1⟩, hc.2⟩) fun _ _ hbad ↦ hbad.1

/-- What a configuration takes from its entity as it stands there. -/
structure TakesFrom (e : String × Entity) (c : Configuration) : Prop where
  studly : c.studly = Name.studly e.1
  toggles : Toggles.resolve e.2.generate e.2.generateExcept = .ok c.toggles
  eagerLoads : c.eagerLoads =
    if e.2.eagerLoads.isEmpty then c.nested.map (·.relation.name) else e.2.eagerLoads

theorem ends_build_takesFrom (schema : Schema) (e : String × Entity) (m : Memory) :
    Ends (build schema e.1 e.2) m (fun c _ ↦ TakesFrom e c) fun _ _ ↦ True := by
  unfold build
  simp only [ends_bind, ends_adapt]
  apply (ends_any _ _).mono
  · intro nested t _
    cases Field.parseAll e.2.fields with
    | error reason => exact (ends_throw _).2 trivial
    | ok fields =>
      dsimp only
      simp only [ends_bind, ends_adapt, ends_pure]
      apply (ends_any _ _).mono
      · intro relations u _
        cases htoggles : Toggles.resolve e.2.generate e.2.generateExcept with
        | error reason => exact (ends_throw _).2 trivial
        | ok toggles => exact (ends_pure _).2 ⟨rfl, htoggles, rfl⟩
      · intro reason u _
        trivial
  · intro reason t _
    trivial

/-- Under a studly name that is stable the definition is found again. -/
theorem FromStudly.keeps (haccepted : Accepted raw schema) {e : String × Entity}
    (he : e ∈ schema) (hstable : Name.studly (Name.studly e.1) = Name.studly e.1)
    {c : Configuration} (hc : FromStudly schema e c) : Keeps e.2 c := by
  have hfind : schema.find? (Name.studly e.1) = some e.2 :=
    find?_eq_of_mem haccepted.keys.2 he hstable
  have hrelations : schema.relationsOf (Name.studly e.1) = (Relation.readAll "" e.2.relations).1 := by
    rw [relationsOf, hstable, hfind]
    rfl
  refine ⟨hc.relations.trans hrelations, hc.nested.trans ?_⟩
  simp only [requests, hstable, hfind, hrelations]

/-! ## Names that are not stable -/

/-- An entity with one relation and nothing else. -/
def related : Entity := ⟨[], [("hasMany", .line "Tag")], [], .unset, [], [], []⟩

def relatedEntries (key : String) : List (Value × Value) :=
  [(.text key, .map [(.text "relations", .map [(.text "hasMany", .text "Tag")])])]

/-- The only entity of a schema may have any identifier as its name. -/
theorem accepted_related {key : String} (hkey : Validation.isIdentifier key) :
    Accepted (.map (relatedEntries key)) [(key, related)] := by
  have hread : Schema.ofEntries (relatedEntries key) = .ok [(key, related)] := rfl
  refine ⟨Validation.isValid_of_checks (by simp [relatedEntries]) ?_ hread ?_,
    relatedEntries key, rfl, hread⟩
  · have hshape : Validation.shapeChecks (relatedEntries key) =
        if Validation.isStudly key then [] else [.notStudly key] := by
      have hnames : Validation.checkNames ((relatedEntries key).map Prod.fst) =
          if Validation.isStudly key then [] else [.notStudly key] := by
        simp [Validation.checkNames, relatedEntries, Value.plain, Validation.namesFrom, hkey]
      have hrest : Validation.checkShapes (relatedEntries key) = [] := rfl
      rw [Validation.shapeChecks, hnames, hrest, List.append_nil]
    rw [hshape]
    split <;> simp [Issue.level]
  · have hcomponents : Validation.checkComponents [(key, related)] = [] := rfl
    have hfields : Validation.checkFields [(key, related)] = [.noFields key] := rfl
    have hunique : Validation.checkUnique [(key, related)] = [] := rfl
    have hrelations := Validation.level_of_mem_checkRelations [(key, related)]
    intro i hi
    simp only [Validation.crossChecks, hcomponents, hfields, hunique, List.nil_append,
      List.append_nil, List.mem_append, List.mem_singleton] at hi
    rcases hi with rfl | hi
    · rfl
    · exact hrelations i hi

/-- A name that is not stable finds nothing in this schema. -/
theorem find?_related {key : String} (hkey : Name.studly (Name.studly key) ≠ Name.studly key)
    (name : String) (hname : Name.studly name = Name.studly (Name.studly key)) :
    Schema.find? [(key, related)] name = none := by
  have hne : (Name.studly key == Name.studly name) = false := by
    rw [hname, beq_eq_false_iff_ne]
    exact hkey.symm
  simp [Schema.find?, hne]

/-- In every accepted schema an entity with the name `key` keeps its relations: its configuration
is built if its tree is, and a pass over all entities gives each its own configuration unless a tree
has no end. -/
def KeptUnder (key : String) : Prop :=
  ∀ (raw : Value) (schema : Schema) (d : Entity) (m : Memory), Accepted raw schema →
    (key, d) ∈ schema → m.Sound schema →
    (Returns (Resolve.tree schema (Name.studly key) []) m →
      Ends (build schema key d) m (fun c _ ↦ c.originalName = key ∧ Keeps d c)
        fun _ _ ↦ False) ∧
    Ends (buildAll schema) m
      (fun cs _ ↦ List.Forall₂
        (fun e c ↦ c.originalName = e.1 ∧ (e.1 = key → Keeps e.2 c)) schema cs)
      fun reason _ ↦ reason = .resolve .endless

/-- An entity keeps its relations under exactly the names whose studly case is stable. -/
theorem keptUnder_iff_stable {key : String} (hkey : Validation.isIdentifier key) :
    KeptUnder key ↔ Name.studly (Name.studly key) = Name.studly key := by
  constructor
  · intro hall
    by_contra hne
    have haccepted := accepted_related hkey
    have hsound := Memory.sound_empty [(key, related)]
    have hnone (name : String) (hname : Name.studly name = Name.studly (Name.studly key)) :=
      find?_related hne name hname
    have hwalk : ¬Schema.Descends [(key, related)] (Resolve.enough [(key, related)])
        (Name.studly key) [] := by
      intro hwalk
      cases hwalk with
      | step hr =>
        rw [requests, hnone _ (by simp only [Name.studly_studly_studly])] at hr
        simp at hr
    have hreturns : Returns (Resolve.tree [(key, related)] (Name.studly key) []) Memory.empty :=
      ((Resolve.ends_treeTo (fun e he ↦ haccepted.fields he) _ _ _ hsound).mono (fun _ _ ↦ id)
        fun _ _ hbad ↦ hwalk hbad.2).returns
    obtain ⟨hbuild, -⟩ := hall _ _ related Memory.empty haccepted (by simp) hsound
    have hmem : (key, related) ∈ [(key, related)] := by simp
    have hfrom := ends_build haccepted hmem hsound
    dsimp only at hfrom
    have hboth := ((hbuild hreturns).and hfrom).mono (fun _ _ ↦ id) fun _ _ hbad ↦ hbad.1
    obtain ⟨c, t, -, ⟨-, hkeeps⟩, hc, -⟩ := hboth.exists_run
    have hfound : c.relations = [] := by
      rw [hc.relations, relationsOf, hnone _ (by simp only [Name.studly_studly_studly])]
      rfl
    have hread : (Relation.readAll "" related.relations).1 ≠ [] := by decide
    exact hread (hkeeps.relations.symm.trans hfound)
  · intro hstable raw schema d m haccepted hmem h
    constructor
    · intro hreturns
      have hwalk := Resolve.not_descends_of_returns (fun e he ↦ haccepted.fields he) h hreturns
      refine (ends_build haccepted hmem h).mono ?_ fun _ _ hbad ↦ hwalk hbad.2
      rintro c t ⟨hc, -⟩
      exact ⟨hc.originalName, hc.keeps haccepted hmem hstable⟩
    · refine (ends_buildAll haccepted h).mono ?_ fun _ _ ↦ id
      rintro cs t ⟨hcs, -⟩
      refine hcs.imp ?_
      rintro e c ⟨he, hc⟩
      refine ⟨hc.originalName, ?_⟩
      rintro rfl
      exact hc.keeps haccepted he hstable

theorem keptUnder_orderItem_not_abc :
    KeptUnder "order_item" ∧ ¬KeptUnder "a_b_c" :=
  ⟨(keptUnder_iff_stable (by decide)).2 (by decide),
    fun h ↦ absurd ((keptUnder_iff_stable (by decide)).1 h) (by decide)⟩

end Configuration

end Scaffold
