import Scaffold.Proofs.Configuration.Soundness
import Scaffold.Proofs.Generation.Distinct

/-!
# One configuration for each key

The studly names of the keys are all that a validation compares. That they differ is enough to keep
everything else apart that is made from an accepted schema: its definitions, its configurations, the
files that they lead to and the payloads that are asked for under the keys.
-/

namespace Scaffold

variable {entries : List (Value × Value)} {schema : Schema} {cs : List Configuration}

/-! ## Configurations -/

namespace Configuration

open Schema

/-- Entities with trees that have an end are worked out whatever has been looked up before. -/
theorem ends_buildAll_of_returns {raw : Value} {m : Memory} (haccepted : Accepted raw schema)
    (htrees : ∀ e ∈ schema, Returns (Resolve.tree schema (Name.studly e.1) []) Memory.empty)
    (h : m.Sound schema) :
    Ends (buildAll schema) m (fun cs _ ↦ List.Forall₂ (FromStudly schema) schema cs)
      fun _ _ ↦ False := by
  have hwalk (e : String × Entity) (he : e ∈ schema) :
      ¬schema.Descends (Resolve.enough schema) (Name.studly e.1) [] :=
    Resolve.not_descends_of_returns (fun e he ↦ haccepted.fields he) (Memory.sound_empty schema)
      (htrees e he)
  have hends : Ends (buildAll schema) m
      (fun cs t ↦ List.Forall₂ (FromStudly schema) schema cs ∧ t.Sound schema) fun _ _ ↦ False :=
    Ends.mapM h fun e he t ht ↦
      (ends_build haccepted he ht).mono (fun _ _ ↦ id) fun _ _ hbad ↦ hwalk e he hbad.2
  exact hends.mono (fun _ _ ↦ And.left) fun _ _ ↦ id

end Configuration

/-! ## Paths -/

namespace Artifact

variable {a a' : Artifact} {c c' : Configuration} {p : Path}

/-- The directory below which all artifacts of a kind lie. -/
def home (a : Artifact) : List String := a.dirs ""

theorem home_prefix_dirs (a : Artifact) (studly : String) : a.home <+: a.dirs studly := by
  cases a <;> simp [home, dirs]

theorem ne_migration_of_fixedPath? (h : a.fixedPath? c = some p) : a ≠ migration := by
  rintro rfl
  cases h

/-- The fixed path of an artifact tells whose it is. -/
theorem fixedPath?_inj (hc : c.studly = "" ∨ IsWord c.studly) (hc' : c'.studly = "" ∨ IsWord c'.studly)
    (h : a.fixedPath? c = some p) (h' : a'.fixedPath? c' = some p) :
    c.studly = c'.studly ∧ a = a' := by
  rw [fixedPath?_eq hc (ne_migration_of_fixedPath? h)] at h
  rw [fixedPath?_eq hc' (ne_migration_of_fixedPath? h'), ← h, Option.some.injEq, Path.mk.injEq] at h'
  obtain ⟨hdirs, hfile⟩ := List.append_inj' h'.2 rfl
  obtain ⟨hstudly, hkind⟩ := eq_of_path_eq hdirs (List.singleton_inj.1 hfile)
  exact ⟨hstudly.symm, hkind.symm⟩

theorem mem_fixedPaths : (a, p) ∈ fixedPaths c ↔ a.fixedPath? c = some p := by
  have hall : a ∈ all := by cases a <;> decide
  simp [fixedPaths, hall]

/-- Entities with different studly names share no path. -/
theorem nodup_fixedPaths (hwords : ∀ c ∈ cs, c.studly = "" ∨ IsWord c.studly)
    (hnodup : (cs.map (·.studly)).Nodup) :
    (cs.flatMap fun c ↦ (fixedPaths c).map Prod.snd).Nodup := by
  rw [List.nodup_flatMap]
  constructor
  · intro c hc
    refine List.Nodup.map_on ?_ (List.Nodup.filterMap ?_ (by decide))
    · rintro ⟨a, p⟩ h ⟨a', p'⟩ h' rfl
      rw [mem_fixedPaths] at h h'
      exact Prod.ext (fixedPath?_inj (hwords c hc) (hwords c hc) h h').2 rfl
    · rintro a a' ⟨a'', p⟩ h h'
      simp at h h'
      exact h.2.trans h'.2.symm
  · refine (List.pairwise_map.1 hnodup).imp_of_mem ?_
    intro c c' hc hc' hne p hp hp'
    obtain ⟨⟨a, p⟩, h, rfl⟩ := List.mem_map.1 hp
    obtain ⟨⟨a', p'⟩, h', rfl⟩ := List.mem_map.1 hp'
    rw [mem_fixedPaths] at h h'
    exact hne (fixedPath?_inj (hwords c hc) (hwords c' hc') h h').1

theorem exists_fixedPath? (hc : c.studly = "" ∨ IsWord c.studly) (ha : a ≠ migration) :
    ∃ p, a.fixedPath? c = some p ∧ p.IsTarget ∧ a.home <+: p.parts :=
  ⟨_, fixedPath?_eq hc ha, (copyOf_fixedPath? hc (fixedPath?_eq hc ha)).original,
    (home_prefix_dirs a c.studly).trans (List.prefix_append _ _)⟩

end Artifact

/-! ## Payloads -/

namespace Generator

theorem ends_configurations {memory : Memory} {s : Scene} (haccepted : schema.Accepted (.map entries))
    (hbuilt : (Configuration.buildAll schema).run.run Memory.empty = (.ok cs, memory)) :
    Ends (configurations (.map entries)) s (fun cs' _ ↦ cs' = cs) fun _ _ ↦ False := by
  obtain ⟨_, heq, hread⟩ := haccepted.read
  cases heq
  have hvalid := haccepted.isValid
  simp only [configurations, haccepted.examine, hvalid, hread, ends_bind, Run.ends_lift,
    Run.ends_sayAll, Except.ok.injEq, forall_eq', reduceCtorEq, false_imp_iff, implies_true, and_true,
    Bool.not_true, Bool.false_eq_true, if_false]
  rw [hbuilt]
  simp only [ends_bind, Run.ends_lift, Run.ends_sayAll, Except.ok.injEq, forall_eq', reduceCtorEq,
    false_imp_iff, implies_true, and_true]

/-- A payload is made from the configuration whose studly name is asked for. -/
theorem ends_payload {memory : Memory} {s : Scene} (haccepted : schema.Accepted (.map entries))
    (hbuilt : (Configuration.buildAll schema).run.run Memory.empty = (.ok cs, memory))
    {c : Configuration} (hc : c ∈ cs) {name : String} (hname : c.studly = Name.studly name) :
    Ends (payload (.map entries) name) s
      (fun text _ ↦ text = (Value.ofPairs (Code.payload c)).json) fun _ _ ↦ False := by
  rw [payload, ends_bind]
  refine (ends_configurations haccepted hbuilt).mono ?_ fun _ _ ↦ id
  rintro found t rfl
  rcases hfind : found.find? fun c ↦ c.studly == Name.studly name with - | c'
  · exact absurd hname (by simpa using List.find?_eq_none.1 hfind c hc)
  · have hnodup := (Configuration.built haccepted hbuilt).nodup
    have hstudly : c'.studly = Name.studly name := by simpa using List.find?_some hfind
    obtain rfl := List.inj_on_of_nodup_map hnodup (List.mem_of_find?_eq_some hfind) hc
      (hstudly.trans hname.symm)
    rw [hfind]
    exact (ends_pure _).2 rfl

/-! ## One to one -/

/-- The keys of a valid raw value lead one to one to definitions, and if the trees of nested requests
have an end, to configurations, to files and to payloads. -/
theorem one_to_one_of_isValid {raw : Value} (hvalid : (Validation.validate raw).isValid = true) :
    ∃ entries schema, raw = .map entries ∧ Schema.ofEntries entries = .ok schema ∧
      List.Forall₂ (fun x e ↦ e.1 = x.1.plain ∧ Schema.readEntity x.2 = .ok e.2) entries schema ∧
      (schema.map Prod.fst).Nodup ∧
      ((∀ e ∈ schema, Returns (Resolve.tree schema (Name.studly e.1) []) Memory.empty) →
        ∃ cs memory, (Configuration.buildAll schema).run.run Memory.empty = (.ok cs, memory) ∧
          cs.map (fun c ↦ (c.originalName, c.studly)) =
            entries.map (fun x ↦ (x.1.plain, Name.studly x.1.plain)) ∧
          (cs.map (·.studly)).Nodup ∧
          (cs.flatMap fun c ↦ (Artifact.fixedPaths c).map Prod.snd).Nodup ∧
          (∀ c ∈ cs, ∀ a : Artifact, a ≠ .migration →
            ∃ p, a.fixedPath? c = some p ∧ p.IsTarget ∧ a.home <+: p.parts) ∧
          ∀ x ∈ entries, ∀ c ∈ cs, c.originalName = x.1.plain → ∀ s,
            Ends (payload raw x.1.plain) s
              (fun text _ ↦ text = (Value.ofPairs (Code.payload c)).json) fun _ _ ↦ False) := by
  obtain ⟨schema, haccepted⟩ := Validation.exists_accepted hvalid
  obtain ⟨entries, rfl, hread⟩ := haccepted.read
  have hentries := haccepted.forall₂_entries
  refine ⟨entries, schema, rfl, hread, hentries, haccepted.nodup_keys, fun htrees ↦ ?_⟩
  obtain ⟨cs, memory, hbuilt, hcs⟩ :=
    (Configuration.ends_buildAll_of_returns haccepted htrees (Memory.sound_empty schema)).exists_run
  have hknown := Configuration.built haccepted hbuilt
  refine ⟨cs, memory, hbuilt, ?_, hknown.nodup, Artifact.nodup_fixedPaths hknown.words hknown.nodup,
    fun c hc a ha ↦ Artifact.exists_fixedPath? (hknown.words c hc) ha, fun x hx c hc hname s ↦ ?_⟩
  · calc
      cs.map (fun c ↦ (c.originalName, c.studly)) = schema.map fun e ↦ (e.1, Name.studly e.1) :=
        map_eq_map_of_forall₂ (hcs.flip.imp fun c e hc ↦ Prod.ext hc.originalName hc.studly)
      _ = entries.map fun x ↦ (x.1.plain, Name.studly x.1.plain) :=
        map_eq_map_of_forall₂ (hentries.flip.imp fun e x he ↦ by rw [he.1])
  · obtain ⟨e, -, hfrom⟩ := exists_of_forall₂_of_mem_right hcs hc
    exact ends_payload haccepted hbuilt hc (by rw [hfrom.studly, ← hfrom.originalName, hname])

/-- Two entities, one nested in the other, which has a key that is no text. -/
def boolEntries : List (Value × Value) :=
  [(.bool true, .map [(.text "relations", .map [(.text "hasMany", .text "OrderItem")]),
      (.text "nested_requests", .list [.text "orderItems"])]),
    (.text "order_item", .map [(.text "fields", .map [(.text "quantity", .text "integer")])])]

def boolSchema : Schema :=
  [("True", ⟨[], [("hasMany", .line "OrderItem")], ["orderItems"], .unset, [], [], []⟩),
    ("order_item", ⟨[("quantity", "integer")], [], [], .unset, [], [], []⟩)]

theorem boolEntries_one_to_one : ∃ cs memory,
    (Configuration.buildAll boolSchema).run.run Memory.empty = (.ok cs, memory) ∧
      cs.map (fun c ↦ (c.originalName, c.studly)) = [("True", "True"), ("order_item", "OrderItem")] ∧
      (cs.flatMap fun c ↦ (Artifact.fixedPaths c).map Prod.snd).Nodup ∧
      ∀ c ∈ cs, c.originalName = "order_item" → ∀ s, Ends (payload (.map boolEntries) "order_item") s
        (fun text _ ↦ text = (Value.ofPairs (Code.payload c)).json) fun _ _ ↦ False := by
  have hvalid : (Validation.validate (.map boolEntries)).isValid = true := by decide +kernel
  obtain ⟨entries, schema, heq, hread, -, -, hone⟩ := one_to_one_of_isValid hvalid
  cases heq
  obtain rfl : boolSchema = schema := Except.ok.inj hread
  have htrees : ∀ e ∈ boolSchema,
      Returns (Resolve.tree boolSchema (Name.studly e.1) []) Memory.empty := by
    have hall : boolSchema.all (fun e ↦ passes (Resolve.tree boolSchema (Name.studly e.1) [])
        Memory.empty fun _ _ ↦ true) = true := by decide +kernel
    intro e he
    obtain ⟨tree, memory, hrun, -⟩ := exists_run_of_passes _ _ _ (List.all_eq_true.1 hall e he)
    exact ⟨tree, memory, hrun⟩
  obtain ⟨cs, memory, hbuilt, hnames, -, hpaths, -, hpayloads⟩ := hone htrees
  exact ⟨cs, memory, hbuilt, hnames.trans (by decide +kernel), hpaths, fun c hc hname s ↦
    hpayloads _ (List.mem_cons_of_mem _ (List.mem_singleton_self _)) c hc hname s⟩

end Generator

end Scaffold
