import Scaffold.Proofs.Configuration.Order
import Scaffold.Proofs.Generation.OneToOne
import Scaffold.Proofs.Generation.Whole

/-!
# What the order of entities decides

An artifact is made from the configuration of its entity and from the entities that the nested
requests of its entity lead to. Both are the same in whatever order the entries of a schema stand, so
the artifacts of a run are made from the same things, only in another order, and so are the payloads.
-/

namespace Scaffold

/-- What an artifact is made from besides the stubs: a configuration, and the entities that nested
requests lead to. -/
abbrev Source := Configuration × Artifact × List String

def Task.source (x : Task) : Source := (x.config, x.artifact, x.related)

/-- What an artifact is made from decides its text; the moment of generation does not occur in it. -/
theorem Task.content_eq_of_source_eq {x x' : Task} (h : x'.source = x.source) :
    x'.content = x.content := by
  simp only [source, Prod.mk.injEq] at h
  unfold content
  rw [h.1, h.2.1, h.2.2]

/-- What the artifacts of entities are made from, in the order of generation, if nested requests lead
from an entity to the entities `names`. -/
def sources (names : String → List String) (cs : List Configuration) : List Source :=
  cs.flatMap fun c ↦ (Artifact.enabled c.toggles).map fun a ↦ (c, a, names c.studly)

variable {entries entries' : List (Value × Value)} {schema : Schema} {cs cs' : List Configuration}
  {memory : Memory} {names : String → List String}

theorem sources_eq (names : String → List String) (cs : List Configuration) :
    sources names cs = (enabledArtifacts cs).map fun (c, a) ↦ (c, a, names c.studly) := by
  simp [sources, enabledArtifacts, List.map_flatMap, Function.comp_def]

theorem sources_perm (names : String → List String) (h : cs'.Perm cs) :
    (sources names cs').Perm (sources names cs) := h.flatMap_right _

/-! ## Artifacts -/

namespace Generator

variable {g : Generator}

/-- Turns with the related entities `names` are made from the sources of their artifacts. -/
theorem map_source {xs : List (Turn g)}
    (h : ∀ x ∈ xs.map (·.task), x.related = names x.config.studly) :
    xs.map (·.task.source) =
      (xs.map fun x ↦ (x.task.config, x.task.artifact)).map fun (c, a) ↦ (c, a, names c.studly) := by
  rw [List.map_map]
  apply List.map_congr_left
  intro x hx
  exact congrArg (x.task.config, x.task.artifact, ·) (h x.task (List.mem_map_of_mem hx))

/-- Generation from the entities, in their order, makes each artifact from the given sources. -/
def MakesFrom (schema : Schema) (cs : List Configuration) (memory : Memory)
    (made : List Source) : Prop :=
  ∀ (g : Generator) (r : Report) (s : Scene),
    Ends (g.generateAll schema cs memory r) s
      (fun r' t ↦ ∃ (xs : List (Turn g)) (os : List Outcome), xs.map (·.task.source) = made ∧
        Leads g xs s.disk s.asked t.disk t.asked ∧ List.Forall₂ Turn.Tells xs os ∧ r.Adds os r')
      fun _ t ↦ ∃ xs : List (Turn g), xs.map (·.task.source) <+: made ∧
        Leads g xs s.disk s.asked t.disk t.asked

/-- Whatever has been looked up before, the artifacts are made from what lookups find. -/
theorem makesFrom_sources
    (hnames : ∀ name, ∃ messages, Settles schema (Resolve.related schema name [])
      (.ok (names name)) messages) (hmemory : memory.Faithful schema) :
    MakesFrom schema cs { memory with log := [] } (sources names cs) := by
  have hrelated (name : String) (m : Memory) (hm : m.Faithful schema) :
      Ends (Resolve.related schema name []) m
        (fun found t ↦ found = names name ∧ ({ t with log := [] } : Memory).Faithful schema)
        fun _ _ ↦ False := by
    obtain ⟨messages, hsettles⟩ := hnames name
    apply (hsettles m hm).mono
    · intro found t ⟨hfound, _, hfaithful⟩
      exact ⟨(Except.ok.inj hfound).symm, hfaithful.of_log []⟩
    · intro e t ⟨he, _⟩
      cases he
  intro g r s
  rw [sources_eq]
  apply (ends_generateAll hrelated (hmemory.of_log [])).mono
  · intro r' t ⟨_, xs, os, hplans, hxs, hfinds, hleads, htells, hadds⟩
    subst hxs
    refine ⟨xs, os, ?_, hleads, htells, hadds⟩
    rw [map_source hfinds, hplans.enabled_eq]
  · intro e t ⟨xs, hfinds, hleads, hbreaks⟩
    refine ⟨xs, ?_, hleads⟩
    rw [map_source hfinds]
    exact hbreaks.exists_plans.map _

/-! ## Payloads -/

/-- A payload is that of the configuration which has the name. -/
theorem resultOn_payload (haccepted : schema.Accepted (.map entries))
    (hbuilt : (Configuration.buildAll schema).run.run Memory.empty = (.ok cs, memory))
    (name : String) (d : Disk) :
    (payload (.map entries) name).resultOn d =
      match cs.find? fun c ↦ c.studly == Name.studly name with
      | some c => .ok (Value.ofPairs (Code.payload c)).json
      | none => .error (.unknownEntity name) := by
  apply Run.of_ends_resultOn (P := fun result ↦ result =
    match cs.find? fun c ↦ c.studly == Name.studly name with
    | some c => .ok (Value.ofPairs (Code.payload c)).json
    | none => .error (.unknownEntity name))
  rw [payload, ends_bind]
  apply (ends_configurations haccepted hbuilt).mono
  · intro found t hfound
    rw [hfound]
    cases cs.find? fun c ↦ c.studly == Name.studly name with
    | some c => exact (ends_pure _).2 rfl
    | none => exact (ends_throw _).2 rfl
  · intro _ _
    exact False.elim

theorem find?_studly_perm (hnodup : (cs.map (·.studly)).Nodup) (hperm : cs'.Perm cs)
    (studly : String) :
    cs'.find? (fun c ↦ c.studly == studly) = cs.find? fun c ↦ c.studly == studly := by
  have hfind {l : List Configuration} (hl : (l.map (·.studly)).Nodup) (c : Configuration) :
      l.find? (fun c ↦ c.studly == studly) = some c ↔ c ∈ l ∧ c.studly = studly := by
    constructor
    · intro h
      exact ⟨List.mem_of_find?_eq_some h, by simpa using List.find?_some h⟩
    · intro ⟨hmem, hstudly⟩
      have hsome : (l.find? fun c ↦ c.studly == studly).isSome :=
        List.find?_isSome.2 ⟨c, hmem, by simpa using hstudly⟩
      obtain ⟨c', hc'⟩ := Option.isSome_iff_exists.1 hsome
      have hstudly' : c'.studly = studly := by simpa using List.find?_some hc'
      rw [hc', List.inj_on_of_nodup_map hl (List.mem_of_find?_eq_some hc') hmem
        (hstudly'.trans hstudly.symm)]
  have hnodup' : (cs'.map (·.studly)).Nodup := (hperm.map _).nodup_iff.2 hnodup
  apply Option.ext
  intro c
  rw [hfind hnodup', hfind hnodup, hperm.mem_iff]

/-! ## Another order -/

/-- If the entries of an accepted schema are put in another order and the trees of nested requests have
an end, the schema is still accepted, the entities have the same configurations, and every name
leads to the same related entities, whatever has been looked up before. So the artifacts of a run
are made from the same sources, which give them the same texts, and the payloads are the same. -/
theorem generated_perm (haccepted : schema.Accepted (.map entries)) (hperm : entries'.Perm entries)
    (htrees : ∀ e ∈ schema, Returns (Resolve.tree schema (Name.studly e.1) []) Memory.empty) :
    ∃ schema' cs cs' memory memory' names,
      Schema.Accepted (.map entries') schema' ∧ schema'.Perm schema ∧
      (Configuration.buildAll schema).run.run Memory.empty = (.ok cs, memory) ∧
      (Configuration.buildAll schema').run.run Memory.empty = (.ok cs', memory') ∧
      cs.map (·.originalName) = schema.map Prod.fst ∧
      cs'.map (·.originalName) = schema'.map Prod.fst ∧ cs'.Perm cs ∧
      (∀ (name : String) (visited : List String) (m m' : Memory), m.Faithful schema →
        m'.Faithful schema' → ((Resolve.related schema' name visited).run.run m').1 =
          ((Resolve.related schema name visited).run.run m).1) ∧
      (∀ c ∈ cs, resultAfresh (Resolve.related schema c.studly []) = .ok (names c.studly)) ∧
      MakesFrom schema cs { memory with log := [] } (sources names cs) ∧
      MakesFrom schema' cs' { memory' with log := [] } (sources names cs') ∧
      (sources names cs').Perm (sources names cs) ∧
      (∀ x x' : Task, x'.source = x.source → x'.content = x.content) ∧
      ∀ (name : String) (d : Disk),
        (payload (.map entries') name).resultOn d = (payload (.map entries) name).resultOn d := by
  obtain ⟨schema', haccepted', hschema⟩ := haccepted.exists_perm hperm
  have hfind : schema'.find? = schema.find? := Schema.find?_perm haccepted.keys.2 hschema
  have hlength : schema'.length = schema.length := hschema.length_eq
  have hrelated : Resolve.related schema' = Resolve.related schema :=
    Resolve.related_congr hfind hlength
  obtain ⟨cs, memory, hbuilt, -⟩ :=
    (Configuration.ends_buildAll_of_returns haccepted htrees (Memory.sound_empty schema)).exists_run
  obtain ⟨cs', memory', hbuilt', hcs, hfaithful, hfaithful'⟩ :=
    Configuration.exists_buildAll_perm hfind hschema hbuilt
  have hknown := Configuration.built haccepted hbuilt
  have hnames (name : String) : ∃ found messages,
      Settles schema (Resolve.related schema name []) (.ok found) messages := by
    obtain ⟨messages, hsettles⟩ := (Resolve.oblivious_related schema name []).settles
    obtain ⟨found, _, hrun, -⟩ :=
      (Resolve.ends_related hknown.no_loop name (Memory.sound_empty schema)).exists_run
    rw [resultAfresh, hrun] at hsettles
    exact ⟨found, messages, hsettles⟩
  choose names messages hsettles using hnames
  have hmakes : MakesFrom schema cs { memory with log := [] } (sources names cs) :=
    makesFrom_sources (fun name ↦ ⟨_, hsettles name⟩) hfaithful
  have hmakes' : MakesFrom schema' cs' { memory' with log := [] } (sources names cs') := by
    apply makesFrom_sources _ (hfaithful'.congr hfind.symm)
    intro name
    rw [hrelated]
    exact ⟨_, (hsettles name).congr hfind⟩
  refine ⟨schema', cs, cs', memory, memory', names, haccepted', hschema, hbuilt, hbuilt',
    Configuration.map_originalName haccepted hbuilt, Configuration.map_originalName haccepted' hbuilt', hcs,
    ?_, ?_, hmakes, hmakes', sources_perm names hcs, fun _ _ ↦ Task.content_eq_of_source_eq, ?_⟩
  · intro name visited m m' hm hm'
    have hoblivious := Resolve.oblivious_related schema name visited
    rw [hrelated, (hoblivious.run_eq hm).1, (hoblivious.run_eq (hm'.congr hfind)).1]
  · intro c _
    exact ((hsettles c.studly).run_eq (Memory.faithful_empty schema)).1
  · intro name d
    rw [resultOn_payload haccepted hbuilt, resultOn_payload haccepted' hbuilt',
      find?_studly_perm hknown.nodup hcs]

/-- Three entities; an order is written with its items, and an item with its product. -/
def shopEntries : List (Value × Value) :=
  [(.text "order", .map [(.text "relations", .map [(.text "hasMany", .text "Item")]),
      (.text "nested_requests", .list [.text "items"])]),
    (.text "Item", .map [(.text "relations", .map [(.text "hasOne", .text "Product")]),
      (.text "nested_requests", .list [.text "product"])]),
    (.text "Product", .map [(.text "fields", .map [(.text "name", .text "string")])])]

def shop : Schema :=
  [("order", ⟨[], [("hasMany", .line "Item")], ["items"], .unset, [], [], []⟩),
    ("Item", ⟨[], [("hasOne", .line "Product")], ["product"], .unset, [], [], []⟩),
    ("Product", ⟨[("name", "string")], [], [], .unset, [], [], []⟩)]

theorem shop_generated_reversed : Schema.Accepted (.map shopEntries) shop ∧
    ∃ schema' cs cs' names, Schema.Accepted (.map shopEntries.reverse) schema' ∧
      cs.map (·.originalName) = ["order", "Item", "Product"] ∧ cs'.Perm cs ∧
      (∀ c ∈ cs, c.studly = "Order" → names c.studly = ["Item", "Product"]) ∧
      (sources names cs').Perm (sources names cs) ∧
      ∀ d, (payload (.map shopEntries.reverse) "order").resultOn d =
        (payload (.map shopEntries) "order").resultOn d := by
  have haccepted : Schema.Accepted (.map shopEntries) shop :=
    ⟨by decide +kernel, shopEntries, rfl, rfl⟩
  have htrees : ∀ e ∈ shop, Returns (Resolve.tree shop (Name.studly e.1) []) Memory.empty := by
    have hall : shop.all (fun e ↦ passes (Resolve.tree shop (Name.studly e.1) []) Memory.empty
        fun _ _ ↦ true) = true := by decide +kernel
    intro e he
    obtain ⟨tree, memory, hrun, -⟩ := exists_run_of_passes _ _ _ (List.all_eq_true.1 hall e he)
    exact ⟨tree, memory, hrun⟩
  have hnames : resultAfresh (Resolve.related shop "Order" []) = .ok ["Item", "Product"] := by
    decide +kernel
  obtain ⟨schema', cs, cs', _, _, names, haccepted', -, -, -, hkeys, -, hperm, -, hrelated, -, -,
    hsources, -, hpayload⟩ := generated_perm haccepted (List.reverse_perm shopEntries) htrees
  refine ⟨haccepted, schema', cs, cs', names, haccepted', hkeys, hperm, ?_, hsources,
    hpayload "order"⟩
  intro c hc hstudly
  have hfound := hrelated c hc
  rw [hstudly, hnames] at hfound
  rw [hstudly]
  exact (Except.ok.inj hfound).symm

end Generator

end Scaffold
