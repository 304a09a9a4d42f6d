import Scaffold.Proofs.Code.Payload
import Scaffold.Proofs.Configuration.Building
import Scaffold.Proofs.Schema.Reading

/-!
# Rules that are lost

The rules of fields and of nested requests come into one flat map, where the later of two rules
under one path replaces the earlier. Nothing keeps the name of a field and the request key of a
relation apart, nor either from the `id` of list items. Where they differ on every level all
paths differ, because a path tells the keys that it leads through.
-/

namespace Scaffold

/-! ## Names of fields -/

theorem Field.name_of_parse {name text : String} {f : Field} (h : parse name text = .ok f) :
    f.name = name := by
  rw [parse] at h
  split at h
  · cases h
  · split at h
    · cases h
    · dsimp only at h
      split at h
      · cases h
      · exact (congrArg Field.name (Except.ok.inj h)).symm

theorem Field.map_name_of_parseAll {definitions : List (String × String)} {fields : List Field}
    (h : parseAll definitions = .ok fields) :
    fields.map (·.name) = definitions.map Prod.fst :=
  map_eq_map_of_forall₂ ((mapM_eq_ok_iff.1 h).flip.imp fun _ _ hf ↦ name_of_parse hf)

theorem Configuration.FromStudly.nodup_names {raw : Value} {schema : Schema} {c : Configuration}
    {e : String × Entity} (haccepted : schema.Accepted raw) (he : e ∈ schema)
    (h : FromStudly schema e c) : (c.fields.map (·.name)).Nodup := by
  rw [Field.map_name_of_parseAll h.fields]
  exact haccepted.nodup_fields he

theorem NestedRelation.FromSchema.nodup_names {raw : Value} {schema : Schema} {n : NestedRelation}
    (haccepted : schema.Accepted raw) (h : n.FromSchema schema) :
    (n.fields.map (·.name)).Nodup := by
  rcases h.fields with hnil | ⟨name, hfields⟩
  · rw [hnil]
    exact List.nodup_nil
  · rw [Field.map_name_of_parseAll hfields, Schema.definitionsOf]
    rcases hfind : schema.find? (Name.studly name) with - | e
    · exact List.nodup_nil
    · obtain ⟨key, he, -⟩ := Schema.exists_of_find? hfind
      exact haccepted.nodup_fields he

namespace Code

/-! ## Contributions -/

/-- What the fields and the nested requests of a configuration bring to its rules, in order. -/
def contributed (c : Configuration) : RuleMap :=
  c.fields.map (fun f ↦ (f.name, f.rule)) ++ nodesRules "" c.nested

/-- The fields of a node's items that have rules: all but the one that the parent supplies. -/
def ruled (n : NestedRelation) : List Field := n.fields.filter (·.name != n.backReference)

/-- A node stands under the request keys on the way to it, each with what follows it in the paths of
items. -/
inductive Stands (nodes : List NestedRelation) : String → NestedRelation → Prop
  | top {n : NestedRelation} (hn : n ∈ nodes) : Stands nodes n.relation.requestKey n
  | deeper {path : String} {n child : NestedRelation} (h : Stands nodes path n)
      (hkind : n.relation.kind ≠ .belongsToMany) (hchild : child ∈ n.children) :
      Stands nodes (itemPath n.relation path ++ child.relation.requestKey) child

theorem mem_nodesRules_iff {before : String} {nodes : List NestedRelation} {e : String × String} :
    e ∈ nodesRules before nodes ↔ ∃ n ∈ nodes, e ∈ nodeRules before n := by
  induction nodes with
  | nil => simp [nodesRules]
  | cons n rest ih => rw [nodesRules, List.mem_append, ih, List.exists_mem_cons_iff]

/-- What a node brings is among what all nodes bring. -/
theorem Stands.mem_nodesRules {nodes : List NestedRelation} {path : String} {n : NestedRelation}
    (h : Stands nodes path n) : ∃ before, path = before ++ n.relation.requestKey ∧
      ∀ e ∈ nodeRules before n, e ∈ nodesRules "" nodes := by
  induction h with
  | top hn => exact ⟨"", by simp, fun e he ↦ mem_nodesRules_iff.2 ⟨_, hn, he⟩⟩
  | @deeper path n child h hkind hchild ih =>
    obtain ⟨before, rfl, hall⟩ := ih
    refine ⟨_, rfl, fun e he ↦ hall e ?_⟩
    rw [nodeRules_eq, if_neg (by simpa using hkind)]
    exact List.mem_append_right _ (List.mem_append_right _ (mem_nodesRules_iff.2 ⟨_, hchild, he⟩))

/-- What a node itself brings is contributed under its path. -/
theorem Stands.mem_contributed {c : Configuration} {path : String} {n : NestedRelation}
    (h : Stands c.nested path n) :
    (∀ e ∈ ownRules n.relation path, e ∈ contributed c) ∧
      (n.relation.kind ≠ .belongsToMany → ∀ f ∈ ruled n,
        (itemPath n.relation path ++ f.name, f.rule) ∈ contributed c) := by
  obtain ⟨before, rfl, hall⟩ := h.mem_nodesRules
  rw [nodeRules_eq] at hall
  refine ⟨fun e he ↦ List.mem_append_right _ (hall e (List.mem_append_left _ he)),
    fun hkind f hf ↦ List.mem_append_right _ (hall _ (List.mem_append_right _ ?_))⟩
  rw [if_neg (by simpa using hkind)]
  exact List.mem_append_left _ (List.mem_map_of_mem hf)

/-! ## Levels -/

/-- The part of a name before its first dot. -/
def head (name : String) : String := String.ofList (name.toList.takeWhile (· != '.'))

/-- The request keys of a level differ from each other and from the fields, as far as a path tells
them. -/
structure Apart (fields : List Field) (nodes : List NestedRelation) : Prop where
  keys : (nodes.map fun n ↦ n.relation.requestKey).Nodup
  heads : ∀ n ∈ nodes, ∀ f ∈ fields, n.relation.requestKey ≠ head f.name

/-- The items of a node are told apart, and if they are items of a list, from their identifiers. -/
structure ItemsApart (n : NestedRelation) : Prop where
  level : Apart (ruled n) n.children
  fields : n.relation.kind = .hasMany → ∀ f ∈ ruled n, f.name ≠ "id"
  keys : n.relation.kind = .hasMany → ∀ child ∈ n.children, child.relation.requestKey ≠ "id"

/-- On every level what is looked up is told apart. -/
structure AllApart (c : Configuration) : Prop where
  top : Apart c.fields c.nested
  below : ∀ n, NestedRelation.Within c.nested n → ItemsApart n

instance (fields : List Field) (nodes : List NestedRelation) : Decidable (Apart fields nodes) :=
  decidable_of_iff ((nodes.map fun n ↦ n.relation.requestKey).Nodup ∧
      ∀ n ∈ nodes, ∀ f ∈ fields, n.relation.requestKey ≠ head f.name)
    ⟨fun h ↦ ⟨h.1, h.2⟩, fun h ↦ ⟨h.keys, h.heads⟩⟩

instance (n : NestedRelation) : Decidable (ItemsApart n) :=
  decidable_of_iff (Apart (ruled n) n.children ∧
      (n.relation.kind = .hasMany → ∀ f ∈ ruled n, f.name ≠ "id") ∧
      (n.relation.kind = .hasMany → ∀ child ∈ n.children, child.relation.requestKey ≠ "id"))
    ⟨fun h ↦ ⟨h.1, h.2.1, h.2.2⟩, fun h ↦ ⟨h.level, h.fields, h.keys⟩⟩

instance (c : Configuration) : Decidable (AllApart c) :=
  decidable_of_iff
    (Apart c.fields c.nested ∧ ∀ n, NestedRelation.Within c.nested n → ItemsApart n)
    ⟨fun h ↦ ⟨h.1, h.2⟩, fun h ↦ ⟨h.top, h.below⟩⟩

theorem head_key {key rest : String} (hkey : '.' ∉ key.toList) (hrest : IsRest rest) :
    head (key ++ rest) = key := by
  rw [head, takeWhile_key hkey hrest, String.ofList_toList]

/-- The paths of a node's items go on from the path of the node. -/
theorem exists_itemPath_eq (r : Relation) (path : String) :
    ∃ more, itemPath r path = path ++ ("." ++ more) := by
  rw [itemPath]
  split
  · exact ⟨"*.", rfl⟩
  · exact ⟨"", by simp⟩

theorem exists_rest_of_mem_ownRules {r : Relation} {path p : String}
    (hp : p ∈ (ownRules r path).map Prod.fst) : ∃ rest, IsRest rest ∧ p = path ++ rest := by
  have hcases : p = path ∨ p = path ++ ".*" ∨ p = path ++ ".*.id" := by
    rw [ownRules] at hp
    split at hp <;> simp at hp <;> tauto
  rcases hcases with rfl | rfl | rfl
  · exact ⟨"", isRest_empty, by simp⟩
  · exact ⟨".*", isRest_dot "*", rfl⟩
  · exact ⟨".*.id", isRest_dot "*.id", rfl⟩

/-- All that a node brings stands under its request key. -/
theorem exists_rest_of_mem_nodeRules (n : NestedRelation) {before p : String}
    (hp : p ∈ (nodeRules before n).map Prod.fst) :
    ∃ rest, IsRest rest ∧ p = before ++ n.relation.requestKey ++ rest := by
  induction n using NestedRelation.induction_children generalizing before with
  | h n ih =>
    rw [nodeRules_eq, List.map_append, List.mem_append] at hp
    rcases hp with hp | hp
    · exact exists_rest_of_mem_ownRules hp
    · split at hp
      · simp at hp
      · obtain ⟨more, hmore⟩ := exists_itemPath_eq n.relation (before ++ n.relation.requestKey)
        obtain ⟨rest, hrest⟩ : ∃ rest,
            p = itemPath n.relation (before ++ n.relation.requestKey) ++ rest := by
          rw [itemRules, List.map_append, List.mem_append, mem_nodesRules] at hp
          rcases hp with hp | ⟨child, hchild, hp⟩
          · rw [List.map_map] at hp
            obtain ⟨f, -, rfl⟩ := List.mem_map.1 hp
            exact ⟨f.name, rfl⟩
          · obtain ⟨rest, -, rfl⟩ := ih child hchild hp
            exact ⟨child.relation.requestKey ++ rest, String.append_assoc⟩
        refine ⟨"." ++ (more ++ rest), isRest_dot _, ?_⟩
        rw [hrest, hmore]
        simp only [String.append_assoc]

theorem nodesRules_eq_flatMap (before : String) (nodes : List NestedRelation) :
    nodesRules before nodes = nodes.flatMap (nodeRules before) := by
  induction nodes with
  | nil => rfl
  | cons n rest ih => rw [nodesRules, ih, List.flatMap_cons]

/-- On a level that is told apart all paths differ, if those of each node do. -/
theorem Apart.nodup {fields : List Field} {nodes : List NestedRelation} (h : Apart fields nodes)
    (hnames : (fields.map (·.name)).Nodup) (before : String)
    (hnodes : ∀ n ∈ nodes, ((nodeRules before n).map Prod.fst).Nodup) :
    ((fields.map (fun f ↦ (before ++ f.name, f.rule)) ++ nodesRules before nodes).map
      Prod.fst).Nodup := by
  rw [List.map_append, List.nodup_append]
  refine ⟨?_, ?_, ?_⟩
  · rw [List.map_map]
    have hpaths : (fields.map fun f ↦ before ++ f.name) =
        (fields.map (·.name)).map (before ++ ·) := by
      rw [List.map_map]
      rfl
    exact hpaths ▸ hnames.map fun a b hab ↦ by simpa using hab
  · rw [nodesRules_eq_flatMap, List.map_flatMap, List.nodup_flatMap]
    refine ⟨hnodes, (List.pairwise_map.1 h.keys).imp fun {n m} hne p hn hm ↦ hne ?_⟩
    obtain ⟨rest, hrest, rfl⟩ := exists_rest_of_mem_nodeRules n hn
    obtain ⟨rest', hrest', heq⟩ := exists_rest_of_mem_nodeRules m hm
    exact (key_unique (dot_not_mem_requestKey _) (dot_not_mem_requestKey _) hrest hrest' heq).1
  · rintro p hfield q hnode rfl
    rw [List.map_map] at hfield
    obtain ⟨f, hf, rfl⟩ := List.mem_map.1 hfield
    obtain ⟨n, hn, hp⟩ := mem_nodesRules.1 hnode
    obtain ⟨rest, hrest, heq⟩ := exists_rest_of_mem_nodeRules n hp
    have hname : f.name = n.relation.requestKey ++ rest := by
      rw [Function.comp_apply, String.append_assoc] at heq
      simpa using heq
    exact h.heads n hn f hf (by rw [hname, head_key (dot_not_mem_requestKey _) hrest])

/-- What stands below the items of a list is not their identifier. -/
theorem ItemsApart.exists_of_mem_itemRules {n : NestedRelation} (h : ItemsApart n) {before p : String}
    (hp : p ∈ (itemRules before n).map Prod.fst) :
    ∃ name, p = before ++ name ∧ (n.relation.kind = .hasMany → name ≠ "id") := by
  rw [itemRules, List.map_append, List.mem_append, mem_nodesRules] at hp
  rcases hp with hp | ⟨child, hchild, hp⟩
  · rw [List.map_map] at hp
    obtain ⟨f, hf, rfl⟩ := List.mem_map.1 hp
    exact ⟨f.name, rfl, fun hmany ↦ h.fields hmany f hf⟩
  · obtain ⟨rest, hrest, rfl⟩ := exists_rest_of_mem_nodeRules child hp
    refine ⟨child.relation.requestKey ++ rest, String.append_assoc, fun hmany hid ↦ ?_⟩
    have hkey := head_key (dot_not_mem_requestKey child.relation) hrest
    rw [hid] at hkey
    exact h.keys hmany child hchild (hkey.symm.trans (by decide))

/-- What stands below the items of a node is not what the node brings itself. -/
theorem ItemsApart.not_mem_ownRules {n : NestedRelation} (h : ItemsApart n)
    (hkind : n.relation.kind ≠ .belongsToMany) {path p : String}
    (hp : p ∈ (itemRules (itemPath n.relation path) n).map Prod.fst) :
    p ∉ (ownRules n.relation path).map Prod.fst := by
  obtain ⟨name, rfl, hid⟩ := h.exists_of_mem_itemRules hp
  by_cases hmany : n.relation.kind = .hasMany
  · have hown : (ownRules n.relation path).map Prod.fst = [path, path ++ ".*", path ++ ".*.id"] := by
      simp [ownRules, hmany]
    have hpath : itemPath n.relation path = path ++ ".*." := by simp [itemPath, hmany]
    rw [hown, hpath]
    simp only [List.mem_cons, List.not_mem_nil, or_false, not_or]
    refine ⟨fun heq ↦ ?_, fun heq ↦ ?_, fun heq ↦ hid hmany ?_⟩
    · exact append_ne_append path "" ".*." name (by decide) (String.append_empty.trans heq.symm)
    · exact append_ne_append path ".*" ".*." name (by decide) heq.symm
    · have hlong : path ++ ".*.id" = path ++ ".*." ++ "id" := by
        rw [String.append_assoc]
        rfl
      rw [hlong] at heq
      simpa using heq
  · have hown : (ownRules n.relation path).map Prod.fst = [path] := by
      rw [ownRules]
      split <;> simp_all
    have hpath : itemPath n.relation path = path ++ "." := by simp [itemPath, hmany]
    rw [hown, hpath, List.mem_singleton]
    exact fun heq ↦
      append_ne_append path "" "." name (by decide) (String.append_empty.trans heq.symm)

theorem nodup_ownRules (r : Relation) (path : String) :
    ((ownRules r path).map Prod.fst).Nodup := by
  have hne (short long : String) (h : short.length < long.length) : path ++ short ≠ path ++ long :=
    fun heq ↦ append_ne_append path short long "" h (by simpa using heq)
  have hself (long : String) (h : 0 < long.length) : path ≠ path ++ long := fun heq ↦
    hne "" long h (String.append_empty.trans heq)
  rw [ownRules]
  split <;>
    simp [hself ".*" (by decide), hself ".*.id" (by decide), hne ".*" ".*.id" (by decide)]

/-- All paths that a node brings differ. -/
theorem nodup_nodeRules (n : NestedRelation) (before : String)
    (h : ∀ m, NestedRelation.Within [n] m → ItemsApart m ∧ (m.fields.map (·.name)).Nodup) :
    ((nodeRules before n).map Prod.fst).Nodup := by
  induction n using NestedRelation.induction_children generalizing before with
  | h n ih =>
    obtain ⟨hitems, hnames⟩ := h n (.root (by simp))
    rw [nodeRules_eq, List.map_append, List.nodup_append]
    refine ⟨nodup_ownRules _ _, ?_, ?_⟩
    · split
      · exact List.nodup_nil
      · refine hitems.level.nodup (hnames.sublist (List.filter_sublist.map _)) _ fun child hchild ↦
          ih child hchild _ fun m hm ↦ h m ?_
        exact .of_children (List.mem_singleton_self n) (hm.mono (by simpa using hchild))
    · rintro p hp q hq rfl
      split at hq
      · simp at hq
      · next hkind => exact hitems.not_mem_ownRules (by simpa using hkind) hq hp

/-! ## Configurations -/

theorem AllApart.nodup {c : Configuration} (h : AllApart c) (hnames : (c.fields.map (·.name)).Nodup)
    (hnodes : ∀ n, NestedRelation.Within c.nested n → (n.fields.map (·.name)).Nodup) :
    ((contributed c).map Prod.fst).Nodup := by
  have hall := h.top.nodup hnames "" fun n hn ↦ nodup_nodeRules n "" fun m hm ↦
    have hwithin : NestedRelation.Within c.nested m := hm.mono (by simpa using hn)
    ⟨h.below m hwithin, hnodes m hwithin⟩
  simpa [contributed] using hall

/-- All contributed rules are in the map exactly if those under one path agree. If on every level of
the tree names are told apart, all paths differ; then each field has its rule, and so has each nested
request with the fields of its items, on every level. -/
theorem lookup_rules_eq {raw : Value} {schema : Schema} {cs : List Configuration} {memory : Memory}
    (haccepted : schema.Accepted raw)
    (hbuilt : (Configuration.buildAll schema).run.run Memory.empty = (.ok cs, memory))
    {c : Configuration} (hc : c ∈ cs) :
    ((∀ e ∈ contributed c, Entries.get? (rules c) e.1 = some e.2) ↔
      ∀ e ∈ contributed c, ∀ e' ∈ contributed c, e.1 = e'.1 → e.2 = e'.2) ∧
    (AllApart c →
      ((contributed c).map Prod.fst).Nodup ∧
      (∀ f ∈ c.fields, Entries.get? (rules c) f.name = some f.rule) ∧
      ∀ path n, Stands c.nested path n →
        (∀ e ∈ ownRules n.relation path, Entries.get? (rules c) e.1 = some e.2) ∧
        (n.relation.kind ≠ .belongsToMany → ∀ f ∈ n.fields, f.name ≠ n.backReference →
          Entries.get? (rules c) (itemPath n.relation path ++ f.name) = some f.rule)) := by
  have hlost := Entries.get?_ofList_eq_iff (contributed c)
  refine ⟨hlost, fun hapart ↦ ?_⟩
  obtain ⟨e, he, hfrom⟩ := Configuration.exists_fromStudly haccepted hbuilt hc
  have hnodup := hapart.nodup (hfrom.nodup_names haccepted he) fun n hn ↦
    (hfrom.fromSchema n hn).nodup_names haccepted
  have hkept : ∀ e ∈ contributed c, Entries.get? (rules c) e.1 = some e.2 :=
    hlost.2 fun e he e' he' hpath ↦
      congrArg Prod.snd (List.inj_on_of_nodup_map hnodup he he' hpath)
  refine ⟨hnodup, fun f hf ↦ hkept (f.name, f.rule)
    (List.mem_append_left _ (List.mem_map_of_mem hf)), fun path n hn ↦ ?_⟩
  obtain ⟨hown, hitems⟩ := hn.mem_contributed
  exact ⟨fun e he ↦ hkept e (hown e he), fun hkind f hf hname ↦
    hkept _ (hitems hkind f (List.mem_filter.2 ⟨hf, by simpa using hname⟩))⟩

/-- Authors with books, and books with chapters. An author has a field of any name. -/
def authorEntries (field : String) : List (Value × Value) :=
  [(.text "Author", .map [(.text "fields", .map [(.text field, .text "integer")]),
      (.text "relations", .map [(.text "hasMany", .text "Book")]),
      (.text "nested_requests", .list [.text "books"])]),
    (.text "Book", .map [(.text "fields", .map [(.text "title", .text "string")]),
      (.text "relations", .map [(.text "hasMany", .text "Chapter")]),
      (.text "nested_requests", .list [.text "chapters"])]),
    (.text "Chapter", .map [(.text "fields", .map [(.text "length", .text "integer")])])]

def authors (field : String) : Schema :=
  [("Author", ⟨[(field, "integer")], [("hasMany", .line "Book")], ["books"], .unset, [], [], []⟩),
    ("Book", ⟨[("title", "string")], [("hasMany", .line "Chapter")], ["chapters"], .unset, [], [],
      []⟩),
    ("Chapter", ⟨[("length", "integer")], [], [], .unset, [], [], []⟩)]

theorem accepted_authors_age : Schema.Accepted (.map (authorEntries "age")) (authors "age") :=
  ⟨by decide +kernel, authorEntries "age", rfl, rfl⟩

theorem authors_lookup_rules_eq : ∃ cs t,
    (Configuration.buildAll (authors "age")).run.run Memory.empty = (.ok cs, t) ∧
      ∃ c ∈ cs, AllApart c ∧ Entries.get? (rules c) "age" = some "required|integer" ∧
        ∃ n child, Stands c.nested "books" n ∧ child ∈ n.children ∧
          Stands c.nested ("books.*." ++ child.relation.requestKey) child ∧
            Entries.get? (rules c) ("books.*." ++ child.relation.requestKey) =
              some "nullable|array" := by
  obtain ⟨cs, t, hrun, htest⟩ := exists_run_of_passes (Configuration.buildAll (authors "age"))
    Memory.empty
    (fun cs _ ↦ cs.any fun c ↦ decide (AllApart c) &&
      (c.fields.any fun f ↦ f.name == "age" && f.rule == "required|integer") &&
      c.nested.any fun n ↦ n.relation.requestKey == "books" && n.relation.kind == .hasMany &&
        !n.children.isEmpty) (by decide +kernel)
  obtain ⟨c, hc, htest⟩ := List.any_eq_true.1 htest
  simp only [Bool.and_eq_true, decide_eq_true_eq, List.any_eq_true, beq_iff_eq, Bool.not_eq_true',
    List.isEmpty_eq_false_iff] at htest
  obtain ⟨⟨hapart, f, hf, hname, hrule⟩, n, hn, ⟨hkey, hmany⟩, hchildren⟩ := htest
  obtain ⟨-, hfields, hnodes⟩ := (lookup_rules_eq accepted_authors_age hrun hc).2 hapart
  obtain ⟨child, hchild⟩ := List.exists_mem_of_ne_nil _ hchildren
  have hbooks : Stands c.nested "books" n := hkey ▸ .top hn
  have hchapters : Stands c.nested ("books.*." ++ child.relation.requestKey) child := by
    have hbelow := hbooks.deeper (by simp [hmany]) hchild
    rwa [itemPath, hmany] at hbelow
  exact ⟨cs, t, hrun, c, hc, hapart, hname ▸ hrule ▸ hfields f hf, n, child, hbooks, hchild, hchapters,
    (hnodes _ child hchapters).1 _ List.mem_cons_self⟩

/-- The request key `books` takes the rule of a field `books`. -/
theorem books_lookup_rules_ne :
    Schema.Accepted (.map (authorEntries "books")) (authors "books") ∧
      ∃ cs t, (Configuration.buildAll (authors "books")).run.run Memory.empty = (.ok cs, t) ∧
        ∃ c ∈ cs, ∃ f ∈ c.fields, f.name = "books" ∧ f.rule = "required|integer" ∧
          Entries.get? (rules c) f.name = some "nullable|array" := by
  refine ⟨⟨by decide +kernel, authorEntries "books", rfl, rfl⟩, ?_⟩
  obtain ⟨cs, t, hrun, htest⟩ := exists_run_of_passes (Configuration.buildAll (authors "books"))
    Memory.empty
    (fun cs _ ↦ cs.any fun c ↦ c.fields.any fun f ↦ f.name == "books" &&
      f.rule == "required|integer" && Entries.get? (rules c) f.name == some "nullable|array")
    (by decide +kernel)
  obtain ⟨c, hc, htest⟩ := List.any_eq_true.1 htest
  obtain ⟨f, hf, htest⟩ := List.any_eq_true.1 htest
  simp only [Bool.and_eq_true, beq_iff_eq] at htest
  exact ⟨cs, t, hrun, c, hc, f, hf, htest.1.1, htest.1.2, htest.2⟩

end Code

end Scaffold
