import Mathlib
import Scaffold.Proofs.Schema.Reading

/-!
# Reading an entity again

Reading an entity settles how its parts are spelled: field definitions become texts, comma lists
become lists and missing parts become empty ones. Written with these spellings, an entity is read
as it is, unless two of its fields have one name (`ofEntries_written_iff`). An entity that was read
has no such fields, so reading it again changes nothing.
-/

namespace Scaffold

namespace Shape

variable {α : Type} {item : Value → Reading α} {write : α → Value}

/-! ## Lists and mappings -/

theorem itemsFrom_map (h : ∀ a, item (write a) = .ok a) (i : ℕ) (as : List α) :
    itemsFrom item i (as.map write) = .ok as := by
  induction as generalizing i with
  | nil => rfl
  | cons a rest ih =>
    rw [List.map_cons, itemsFrom, h, ih]
    rfl

theorem listOf_map (h : ∀ a, item (write a) = .ok a) (as : List α) :
    listOf item (.list (as.map write)) = .ok as := itemsFrom_map h 0 as

theorem listOf_text (texts : List String) :
    listOf text (.list (texts.map .text)) = .ok texts := by
  have htext (s : String) : text (.text s) = .ok s := rfl
  exact listOf_map htext texts

theorem mapOf_map (h : ∀ a, item (write a) = .ok a) (entries : List (String × α)) :
    mapOf item (.map (entries.map fun e ↦ (.text e.1, write e.2))) = .ok entries := by
  induction entries with
  | nil => rfl
  | cons e rest ih =>
    rw [mapOf] at ih ⊢
    rw [List.map_cons, entriesOf, h, ih]
    rfl

theorem textOrTexts_list (one : String → α) (many : List String → α) (texts : List String) :
    textOrTexts one many (.list (texts.map .text)) = .ok (many texts) := by
  rw [textOrTexts, listOf_text]
  simp

end Shape

namespace Entity

open Shape

/-! ## Parts of an entity -/

theorem readFields_map (fields : List (String × String)) :
    readFields (.map (fields.map fun f ↦ (.text f.1, .text f.2))) =
      .ok (Entries.ofList fields) := by
  have hsmall : Value.anyEntryOversize (fields.map fun f ↦ (.text f.1, .text f.2)) = false := by
    induction fields with
    | nil => rfl
    | cons f rest ih => simpa [Value.anyEntryOversize, Value.isOversize] using ih
  have htexts : (fields.map fun f ↦ ((.text f.1 : Value), (.text f.2 : Value))).map
      (fun e ↦ (e.1.plain, definitionText e.2)) = fields := by
    simp [Function.comp_def, Value.plain, definitionText]
  rw [readFields, hsmall, htexts]
  rfl

theorem readTargets_targetsValue (targets : Targets) :
    readTargets (targetsValue targets) = .ok targets := by
  cases targets with
  | none => rfl
  | line s => rfl
  | listed lines => exact textOrTexts_list Targets.line Targets.listed lines

theorem readRelations_map (relations : List (String × Targets)) :
    readRelations (.map (relations.map fun r ↦ (.text r.1, targetsValue r.2))) = .ok relations :=
  mapOf_map readTargets_targetsValue relations

theorem readNames_namesValue (names : List String) : readNames (namesValue names) = .ok names :=
  listOf_text names

theorem readGenerate_toValue (selection : Selection) :
    readGenerate selection.toValue = .ok selection := by
  cases selection with
  | unset => rfl
  | all => rfl
  | flag b => rfl
  | listed names =>
    have hnames := listOf_text names
    rw [Selection.toValue, readGenerate]
    · simp [Shape.bool, miss, hnames]
    all_goals simp
  | chosen choices =>
    have hbool (b : Bool) : Shape.bool (.bool b) = .ok b := rfl
    have hchoices := mapOf_map hbool choices
    rw [Selection.toValue, readGenerate]
    · simp [Shape.bool, miss, listOf, hchoices]
    all_goals simp

theorem readUnique_map (unique : List UniqueKey) :
    readUnique (.list (unique.map uniqueValue)) = .ok unique := by
  refine listOf_map (fun key ↦ ?_) unique
  cases key with
  | column name => rfl
  | together names => exact textOrTexts_list _ _ names

/-! ## Whole entities -/

/-- The keys that the relations to load may stand under. -/
def eagerKeys : List String := ["with", "with_relations"]

/-- The entries of an entity as they are written in a schema, with the relations to load under the
key `eager`. -/
def written (eager : String) (e : Entity) : List (Value × Value) :=
  e.toEntries.map fun (key, v) ↦ (.text (if key == "with_relations" then eager else key), v)

theorem readKey_of_lookup? {α : Type} {entries : List (Value × Value)} {key : String} {v : Value}
    {read : Value → Reading α} {a : α} (hv : Value.lookup? entries key = some v)
    (ha : read v = .ok a) (shown : String) (missing : α) :
    readKey entries key shown missing read = .ok a := by
  rw [readKey, hv]
  simp [ha, within]

variable {eager : String} {e : Entity}

/-- Each part of an entity is found again under its key. -/
theorem ofEntries_written (heager : eager ∈ eagerKeys) (e : Entity) :
    ofEntries (written eager e) = .ok { e with fields := Entries.ofList e.fields } := by
  have hkey : eagerKey (written eager e) = eager := by
    rcases List.mem_pair.1 heager with rfl | rfl <;> rfl
  have hknown : unexpected (eager :: plainKeys) (written eager e) = [] := by
    rcases List.mem_pair.1 heager with rfl | rfl <;> rfl
  have hlookup : Value.lookup? (written eager e) eager = some (namesValue e.eagerLoads) := by
    rcases List.mem_pair.1 heager with rfl | rfl <;> rfl
  have hunique :
      Value.lookup? (written eager e) "unique" = some (.list (e.unique.map uniqueValue)) := by
    rcases List.mem_pair.1 heager with rfl | rfl <;> rfl
  rw [ofEntries, hkey, hknown,
    readKey_of_lookup? rfl (readFields_map e.fields),
    readKey_of_lookup? rfl (readRelations_map e.relations),
    readKey_of_lookup? rfl (readNames_namesValue e.nestedRequests),
    readKey_of_lookup? rfl (readGenerate_toValue e.generate),
    readKey_of_lookup? rfl (readNames_namesValue e.generateExcept),
    readKey_of_lookup? hlookup (readNames_namesValue e.eagerLoads),
    readKey_of_lookup? hunique (readUnique_map e.unique)]
  rfl

/-- What is written is read as it is exactly if the fields have different names. -/
theorem ofEntries_written_iff (heager : eager ∈ eagerKeys) :
    ofEntries (written eager e) = .ok e ↔ (e.fields.map Prod.fst).Nodup := by
  refine ⟨nodup_fields, fun h ↦ ?_⟩
  rw [ofEntries_written heager, Entries.ofList_of_nodup e.fields h]

/-- An entity that was read, from an entry of a schema or from a value, is read again from its
parts as they are, and nothing changes. -/
theorem read_written {v : Value} {e : Entity}
    (h : ofValue v = .ok e ∨ Schema.readEntity v = .ok e) :
    ∀ eager ∈ eagerKeys, ofValue (.map (written eager e)) = .ok e ∧
      Schema.readEntity (.map (written eager e)) = .ok e := by
  intro eager heager
  obtain ⟨entries, hread⟩ : ∃ entries, ofEntries entries = .ok e := by
    rcases h with h | h
    · cases v with
      | map entries => exact ⟨entries, h⟩
      | _ => cases h
    · obtain ⟨entries, -, hread⟩ := Schema.readEntity_eq_ok_iff.1 h
      exact ⟨entries, hread⟩
  have hagain : ofEntries (written eager e) = .ok e :=
    (ofEntries_written_iff heager).2 (nodup_fields hread)
  exact ⟨hagain, Schema.readEntity_eq_ok_iff.2 ⟨_, Schema.entriesOf_map _, hagain⟩⟩

/-- An entry that is spelled in many ways: keys that are no texts, a comma list, a number for a
truth value, parts that are null. -/
def looseEntry : Value :=
  .map [(.text "fields", .map [(.int 1, .text "string"),
      (.text "price", .float (.finite false (3 * 2 ^ 51) (-52))), (.text "1", .null),
      (.bool true, .list [.text "a", .int 2])]),
    (.text "relations", .map [(.text "hasMany", .list [.text "Book, Tag:labels", .text ""]),
      (.text "has_one", .text " Cover "), (.text "other", .null)]),
    (.text "nested_requests", .text " books,, cover "),
    (.text "generate", .map [(.text "model", .text "Yes"), (.text "seeder", .int 0)]),
    (.text "with", .null),
    (.text "unique", .list [.text "price", .list [.text "1", .text "price"]])]

def looseEntity : Entity where
  fields := [("1", ""), ("price", "1.5"), ("True", "['a', 2]")]
  relations := [("hasMany", .listed ["Book, Tag:labels", ""]), ("has_one", .line " Cover "),
    ("other", .none)]
  nestedRequests := ["books", "cover"]
  generate := .chosen [("model", true), ("seeder", false)]
  generateExcept := []
  eagerLoads := []
  unique := [.column "price", .together ["1", "price"]]

theorem looseEntry_read_written :
    Schema.readEntity looseEntry = .ok looseEntity ∧ "with" ∈ eagerKeys ∧
      ofValue (.map (written "with" looseEntity)) = .ok looseEntity ∧
      Schema.readEntity (.map (written "with" looseEntity)) = .ok looseEntity := by
  have hread : Schema.readEntity looseEntry = .ok looseEntity := by decide +kernel
  have heager : "with" ∈ eagerKeys := by decide
  exact ⟨hread, heager, read_written (.inr hread) "with" heager⟩

end Entity

end Scaffold
