import Mathlib
import Scaffold.Proofs.Configuration.Building
import Scaffold.Proofs.Nesting.Nodes
import Scaffold.Proofs.Relation.Naming
import Scaffold.Proofs.Schema.Reading

/-!
# What passes validation can be worked out

Validation stops only at a key without a text. A schema without errors is read, and its entities
are worked out unless nested requests can be followed without end. All data of the configurations
is what it has to be (`Configuration.WellFormed`): what is generated from them is a total function of
it, so that nothing else can fail.
-/

namespace Scaffold

/-- Parsed definitions have a type. -/
theorem Field.baseType_ne_empty {name text : String} {f : Field} (h : parse name text = .ok f) :
    f.baseType ≠ "" := by
  rw [parse] at h
  split at h
  · cases h
  · cases htokens : tokens (Text.strip text) with
    | nil => simp [htokens] at h
    | cons baseType rest =>
      rw [htokens] at h
      dsimp only at h
      split at h
      · cases h
      · rename_i hbase
        obtain rfl := Except.ok.inj h
        simpa using hbase

theorem Field.baseType_ne_empty_of_parseAll {definitions : List (String × String)}
    {fields : List Field} (h : parseAll definitions = .ok fields) :
    ∀ f ∈ fields, f.baseType ≠ "" := by
  intro f hf
  obtain ⟨d, -, hparse⟩ := exists_of_forall₂_of_mem_right (mapM_eq_ok_iff.1 h) hf
  exact baseType_ne_empty hparse

/-- The relation of a node has a name and a target, and its fields have types. -/
structure NestedRelation.WellFormed (n : NestedRelation) : Prop where
  relation : n.relation.IsNamed
  fields : ∀ f ∈ n.fields, f.baseType ≠ ""

/-- The relations of a configuration have names and targets and its fields have types, on every
level of its tree. -/
structure Configuration.WellFormed (c : Configuration) : Prop where
  relations : ∀ r ∈ c.relations, r.IsNamed
  fields : ∀ f ∈ c.fields, f.baseType ≠ ""
  nested : ∀ n, NestedRelation.Within c.nested n → n.WellFormed

namespace Schema

variable {schema : Schema}

theorem isNamed_of_mem_relationsOf {name : String} {r : Relation}
    (h : r ∈ schema.relationsOf name) : r.IsNamed := Relation.isNamed_of_mem_readAll _ _ r h

theorem isNamed_of_mem_requests {name : String} {r : Relation} (h : r ∈ schema.requests name) :
    r.IsNamed := isNamed_of_mem_relationsOf (mem_relationsOf_of_mem_requests h)

end Schema

theorem NestedRelation.FromSchema.wellFormed {schema : Schema} {n : NestedRelation}
    (h : n.FromSchema schema) : n.WellFormed := by
  obtain ⟨name, hr⟩ := h.relation
  refine ⟨Schema.isNamed_of_mem_requests hr, ?_⟩
  rcases h.fields with hnil | ⟨name, hfields⟩
  · simp [hnil]
  · exact Field.baseType_ne_empty_of_parseAll hfields

namespace Configuration

open Schema

variable {raw : Value} {schema : Schema} {m : Memory}

theorem FromStudly.wellFormed {e : String × Entity} {c : Configuration}
    (h : FromStudly schema e c) : c.WellFormed where
  relations _ hr := isNamed_of_mem_relationsOf (h.relations ▸ hr)
  fields := Field.baseType_ne_empty_of_parseAll h.fields
  nested n hn := (h.fromSchema n hn).wellFormed

/-- All entities of an accepted schema are worked out, unless nested requests can be followed
without end, and their data is what it has to be. -/
theorem ends_buildAll_wellFormed (haccepted : Accepted raw schema) (h : m.Sound schema) :
    Ends (buildAll schema) m
      (fun cs _ ↦ List.Forall₂ (fun e c ↦ c.originalName = e.1 ∧ c.WellFormed) schema cs)
      fun reason _ ↦ reason = .resolve .endless :=
  (ends_buildAll haccepted h).mono
    (fun _ _ hcs ↦ hcs.1.imp fun _ _ hc ↦ ⟨hc.2.originalName, hc.2.wellFormed⟩) fun _ _ ↦ id

end Configuration

namespace Validation

/-- A raw value is validated exactly if each of its keys has a text. -/
theorem examine_eq_error_iff {raw : Value} {e : KeyError} :
    examine raw = .error e ↔
      ∃ entries, raw = .map entries ∧ ∃ x ∈ entries, x.1.isOversize = true := by
  cases e
  cases raw with
  | map entries =>
    rw [examine]
    by_cases hkeys : entries.any (·.1.isOversize) = true
    · have := List.any_eq_true.1 hkeys
      simpa [hkeys] using this
    · have hno := hkeys
      rw [Bool.not_eq_true, List.any_eq_false] at hno
      simpa [hkeys] using hno
  | _ => simp [examine]

/-- Validation stops exactly at keys that are integers with too many digits; every relation that
it reads on the way has a name and a target, and every field a type. If it finds no error, the
schema is read, and its entities are worked out well-formed or nested requests can be followed
without end. -/
theorem examine_sound (raw : Value) :
    (∀ e, examine raw = .error e ↔
      ∃ entries, raw = .map entries ∧ ∃ x ∈ entries, x.1.isOversize = true) ∧
    (∀ owner block, ∀ r ∈ (Relation.readAll owner block).1, r.IsNamed) ∧
    (∀ name text f, Field.parse name text = .ok f → f.baseType ≠ "") ∧
    ∀ report, examine raw = .ok report → report.isValid = true →
      ∃ entries schema, raw = .map entries ∧ Schema.ofEntries entries = .ok schema ∧
        ∀ m : Memory, m.Sound schema →
          Ends (Configuration.buildAll schema) m
            (fun cs _ ↦
              List.Forall₂ (fun e c ↦ c.originalName = e.1 ∧ c.WellFormed) schema cs)
            fun reason _ ↦ reason = .resolve .endless := by
  refine ⟨fun e ↦ examine_eq_error_iff, Relation.isNamed_of_mem_readAll,
    fun name text f ↦ Field.baseType_ne_empty, fun report hreport hvalid ↦ ?_⟩
  obtain rfl := eq_validate_of_examine hreport
  obtain ⟨schema, haccepted⟩ := exists_accepted hvalid
  obtain ⟨entries, rfl, hread⟩ := haccepted.read
  exact ⟨entries, schema, rfl, hread,
    fun m hm ↦ Configuration.ends_buildAll_wellFormed haccepted hm⟩

/-- Two entities, one under a key that is an integer with 4301 digits. -/
def oversizeEntries : List (Value × Value) :=
  [(.text "Post", .map [(.text "fields", .map [(.text "title", .text "string")])]),
    (.int (10 ^ Text.maxDigits), .null)]

/-- An oversize key stops validation; without it the schema is valid and is worked out. -/
theorem oversizeEntries_examine :
    examine (.map oversizeEntries) = .error .oversize ∧
      (∃ report, examine (.map (oversizeEntries.take 1)) = .ok report ∧ report.isValid = true) ∧
      ∃ schema, Schema.ofEntries (oversizeEntries.take 1) = .ok schema ∧
        ∀ m : Memory, m.Sound schema →
          Ends (Configuration.buildAll schema) m
            (fun cs _ ↦
              List.Forall₂ (fun e c ↦ c.originalName = e.1 ∧ c.WellFormed) schema cs)
            fun reason _ ↦ reason = .resolve .endless := by
  have hvalid : examine (.map (oversizeEntries.take 1)) =
      .ok (validate (.map (oversizeEntries.take 1))) := by rfl
  have hno : (validate (.map (oversizeEntries.take 1))).isValid = true := by decide
  obtain ⟨entries, schema, heq, hread, hbuild⟩ := (examine_sound _).2.2.2 _ hvalid hno
  cases heq
  refine ⟨((examine_sound _).1 _).2 ⟨oversizeEntries, rfl, (.int (10 ^ Text.maxDigits), .null), ?_, ?_⟩,
    ⟨_, hvalid, hno⟩, schema, hread, hbuild⟩
  · simp [oversizeEntries]
  · simp [Value.isOversize, Int.natAbs_pow]

end Validation

end Scaffold
