import Mathlib
import Scaffold.Code.Rules
import Scaffold.Code.Sample
import Scaffold.Proofs.Configuration.Building
import Scaffold.Proofs.Name.Studly
import Scaffold.Proofs.Nesting.Nodes
import Scaffold.Proofs.Text.Trimming

/-!
# Example payloads and validation rules describe the same shape

The example payload of a configuration is a mapping of mappings, the rules are a flat map under
dotted paths. Written as paths, with a star for the items of a list, the keys of the payload are
the paths of the rules but for those of the identifiers under which items of lists are found
again.

Both sides are compared node by node: what a node brings to the rules is what it brings to the
payload, and identifiers (`mem_nodeRules_iff`); and no path of the payload is that of an
identifier (`not_mem_nodeIdPaths`), because a path of keys without dots tells its keys.
-/

namespace Scaffold

/-! ## Paths of values -/

namespace Value

mutual

/-- The paths of the values below the value at `path`: a key follows a dot, and each item of a
list is written as a star. -/
def pathsBelow (path : String) : Value → List String
  | .list items => itemPaths path items
  | .map entries => entryPaths (path ++ ".") entries
  | _ => []

def itemPaths (path : String) : List Value → List String
  | [] => []
  | v :: rest => (path ++ ".*") :: (pathsBelow (path ++ ".*") v ++ itemPaths path rest)

def entryPaths (before : String) : List (Value × Value) → List String
  | [] => []
  | (key, v) :: rest =>
    (before ++ key.plain) :: (pathsBelow (before ++ key.plain) v ++ entryPaths before rest)

end

/-- The paths of all values in a mapping. -/
def keyPaths : Value → List String
  | .map entries => entryPaths "" entries
  | _ => []

theorem mem_entryPaths {before p : String} {entries : List (Value × Value)} :
    p ∈ entryPaths before entries ↔
      ∃ e ∈ entries, p = before ++ e.1.plain ∨ p ∈ pathsBelow (before ++ e.1.plain) e.2 := by
  induction entries with
  | nil => simp [entryPaths]
  | cons e rest ih => simp [entryPaths, ih, or_assoc]

@[simp] theorem plain_text (s : String) : (Value.text s).plain = s := rfl

/-- Samples of fields are not taken apart. -/
theorem pathsBelow_sample (path : String) (f : Field) : pathsBelow path f.sample.payload = [] := by
  have htype (baseType : String) : pathsBelow path (Sample.ofType baseType).payload = [] := by
    unfold Sample.ofType
    split <;> simp [Sample.ofText, Sample.price, pathsBelow, entryPaths]
  have hhint (hint : List String × Sample) (h : hint ∈ Sample.nameHints) :
      pathsBelow path hint.2.payload = [] := by
    fin_cases h <;> rfl
  rw [Field.sample]
  split
  · split
    · split <;> rfl
    · rfl
  · split
    · rfl
    · rcases hname : Sample.ofName? f.name with - | sample
      · exact htype f.baseType
      · rw [Sample.ofName?, Option.map_eq_some_iff] at hname
        obtain ⟨hint, hfind, rfl⟩ := hname
        exact hhint hint (List.mem_of_find?_eq_some hfind)

end Value

namespace Code

/-! ## Levels -/

/-- The fields and nested requests of one level tell their keys: no field has the name of a column
that the database manages or a dot in its name, and no two keys agree. -/
structure Separate (fields : List Field) (nodes : List NestedRelation) : Prop where
  named : ∀ f ∈ fields, f.name ∉ Field.managedColumns ∧ '.' ∉ f.name.toList
  keys : (nodes.map fun n ↦ n.relation.requestKey).Nodup
  apart : ∀ n ∈ nodes, ∀ f ∈ fields, n.relation.requestKey ≠ f.name

instance (fields : List Field) (nodes : List NestedRelation) : Decidable (Separate fields nodes) :=
  decidable_of_iff
    ((∀ f ∈ fields, f.name ∉ Field.managedColumns ∧ '.' ∉ f.name.toList) ∧
      (nodes.map fun n ↦ n.relation.requestKey).Nodup ∧
      ∀ n ∈ nodes, ∀ f ∈ fields, n.relation.requestKey ≠ f.name)
    ⟨fun h ↦ ⟨h.1, h.2.1, h.2.2⟩, fun h ↦ ⟨h.named, h.keys, h.apart⟩⟩

/-- Every level of a tree of nested requests tells its keys. -/
structure Tidy (fields : List Field) (nodes : List NestedRelation) : Prop where
  top : Separate fields nodes
  below : ∀ n, NestedRelation.Within nodes n → Separate n.fields n.children

instance (fields : List Field) (nodes : List NestedRelation) : Decidable (Tidy fields nodes) :=
  decidable_of_iff
    (Separate fields nodes ∧ ∀ n, NestedRelation.Within nodes n → Separate n.fields n.children)
    ⟨fun h ↦ ⟨h.1, h.2⟩, fun h ↦ ⟨h.top, h.below⟩⟩

theorem Tidy.child {fields : List Field} {nodes : List NestedRelation} (h : Tidy fields nodes)
    {n : NestedRelation} (hn : n ∈ nodes) : Tidy n.fields n.children :=
  ⟨h.below n (.root hn), fun _ hm ↦ h.below _ (hm.of_children hn)⟩

mutual

/-- The paths of the identifiers of list items that a node and the nodes below it bring. -/
def nodeIdPaths (before : String) : NestedRelation → List String
  | ⟨_, r, _, children⟩ =>
    let path := before ++ r.requestKey
    match r.kind with
    | .belongsToMany => []
    | .hasMany => (path ++ ".*.id") :: idPaths (path ++ ".*.") children
    | _ => idPaths (path ++ ".") children

def idPaths (before : String) : List NestedRelation → List String
  | [] => []
  | n :: rest => nodeIdPaths before n ++ idPaths before rest

end

/-- The paths in the part of a payload that a node brings. -/
def nodePaths (before : String) (n : NestedRelation) : List String :=
  (before ++ n.relation.requestKey) ::
    Value.pathsBelow (before ++ n.relation.requestKey) (examplePayload n)

/-- A path of one level: that of a field which is not to skip, or one that a node brings. -/
def LevelPath (before : String) (fields : List Field) (skip : List String)
    (nodes : List NestedRelation) (p : String) : Prop :=
  (∃ f ∈ fields, f.name ∉ skip ∧ p = before ++ f.name) ∨ ∃ n ∈ nodes, p ∈ nodePaths before n

theorem mem_nodesRules {before p : String} {nodes : List NestedRelation} :
    p ∈ (nodesRules before nodes).map Prod.fst ↔
      ∃ n ∈ nodes, p ∈ (nodeRules before n).map Prod.fst := by
  induction nodes with
  | nil => simp [nodesRules]
  | cons n rest ih => rw [nodesRules, List.map_append, List.mem_append, ih, List.exists_mem_cons_iff]

theorem mem_idPaths {before p : String} {nodes : List NestedRelation} :
    p ∈ idPaths before nodes ↔ ∃ n ∈ nodes, p ∈ nodeIdPaths before n := by
  induction nodes with
  | nil => simp [idPaths]
  | cons n rest ih => rw [idPaths, List.mem_append, ih, List.exists_mem_cons_iff]

theorem examplePayloads_eq_map (nodes : List NestedRelation) :
    examplePayloads nodes = nodes.map fun n ↦ (n.relation.requestKey, examplePayload n) := by
  induction nodes with
  | nil => rfl
  | cons n rest ih => rw [examplePayloads, ih, List.map_cons]

/-- Where all keys differ nothing is overwritten. -/
theorem mem_entryPaths_level {fields : List Field} {nodes : List NestedRelation}
    (h : Separate fields nodes) (before : String) (skip : List String) (p : String) :
    p ∈ Value.entryPaths before ((Entries.putAll (exampleFields fields skip)
      (Entries.ofList (examplePayloads nodes))).map fun e ↦ (.text e.1, e.2)) ↔
      LevelPath before fields skip nodes p := by
  have hkeys : (examplePayloads nodes).map Prod.fst =
      nodes.map fun n ↦ n.relation.requestKey := by
    rw [examplePayloads_eq_map, List.map_map]
    rfl
  have happend : Entries.putAll (exampleFields fields skip)
      (Entries.ofList (examplePayloads nodes)) =
        exampleFields fields skip ++ examplePayloads nodes := by
    rw [Entries.ofList_of_nodup _ (hkeys ▸ h.keys)]
    refine Entries.putAll_of_disjoint _ _ (hkeys ▸ h.keys) fun k hk hfield ↦ ?_
    rw [hkeys, List.mem_map] at hk
    obtain ⟨n, hn, rfl⟩ := hk
    rw [exampleFields, List.map_map, List.mem_map] at hfield
    obtain ⟨f, hf, hname⟩ := hfield
    exact h.apart n hn f (List.mem_filter.1 hf).1 hname.symm
  have hfields (f : Field) : f ∈ fields.filter (fun f ↦
      !Field.managedColumns.contains f.name && !skip.contains f.name) ↔
        f ∈ fields ∧ f.name ∉ skip := by
    rw [List.mem_filter]
    refine and_congr_right fun hf ↦ ?_
    simp [(h.named f hf).1]
  rw [happend, List.map_append, Value.mem_entryPaths, LevelPath]
  simp only [List.mem_append, or_and_right, exists_or]
  refine or_congr ?_ ?_
  · simp only [exampleFields, List.map_map, List.mem_map, hfields, Function.comp_apply, and_assoc]
    constructor
    · rintro ⟨_, ⟨f, hf, hskip, rfl⟩, hp⟩
      refine ⟨f, hf, hskip, hp.resolve_right ?_⟩
      rw [Value.pathsBelow_sample]
      exact List.not_mem_nil
    · rintro ⟨f, hf, hskip, hp⟩
      exact ⟨_, ⟨f, hf, hskip, rfl⟩, .inl hp⟩
  · simp only [examplePayloads_eq_map, List.map_map, List.mem_map, exists_exists_and_eq_and,
      Function.comp_apply, Value.plain_text, nodePaths, List.mem_cons]

/-! ## What a node brings -/

theorem nodePaths_of_belongsToMany {n : NestedRelation} (h : n.relation.kind = .belongsToMany)
    (before p : String) : p ∈ nodePaths before n ↔
      p = before ++ n.relation.requestKey ∨ p = before ++ n.relation.requestKey ++ ".*" := by
  obtain ⟨parent, r, fields, children⟩ := n
  replace h : r.kind = .belongsToMany := h
  simp [nodePaths, examplePayload, h, Value.pathsBelow, Value.itemPaths]

/-- The columns of a node's items that the parent supplies. -/
abbrev supplied (n : NestedRelation) : List String := [Name.snake n.parent ++ "_id"]

theorem nodePaths_of_hasMany {n : NestedRelation} (h : n.relation.kind = .hasMany)
    (hsep : Separate n.fields n.children) (before p : String) : p ∈ nodePaths before n ↔
      p = before ++ n.relation.requestKey ∨ p = before ++ n.relation.requestKey ++ ".*" ∨
        LevelPath (before ++ n.relation.requestKey ++ ".*.") n.fields (supplied n) n.children
          p := by
  obtain ⟨parent, r, fields, children⟩ := n
  replace h : r.kind = .hasMany := h
  have hdot (path : String) : path ++ ".*." = path ++ ".*" ++ "." := by
    rw [String.append_assoc]
    rfl
  rw [hdot, ← mem_entryPaths_level hsep]
  simp [nodePaths, examplePayload, h, Value.pathsBelow, Value.itemPaths, Value.ofPairs]

theorem nodePaths_of_single {n : NestedRelation} (hmany : n.relation.kind ≠ .hasMany)
    (hbelongs : n.relation.kind ≠ .belongsToMany) (hsep : Separate n.fields n.children)
    (before p : String) : p ∈ nodePaths before n ↔
      p = before ++ n.relation.requestKey ∨
        LevelPath (before ++ n.relation.requestKey ++ ".") n.fields (supplied n) n.children p := by
  obtain ⟨parent, r, fields, children⟩ := n
  replace hmany : r.kind ≠ .hasMany := hmany
  replace hbelongs : r.kind ≠ .belongsToMany := hbelongs
  rw [← mem_entryPaths_level hsep]
  simp [nodePaths, examplePayload, hmany, hbelongs, Value.pathsBelow, Value.ofPairs]

/-- The rules that the items of a node bring. -/
def itemRules (below : String) (n : NestedRelation) : RuleMap :=
  ((n.fields.filter (·.name != Name.snake n.parent ++ "_id")).map fun f ↦
    (below ++ f.name, f.rule)) ++ nodesRules below n.children

theorem nodeRules_eq (before : String) (n : NestedRelation) :
    nodeRules before n = ownRules n.relation (before ++ n.relation.requestKey) ++
      if n.relation.kind == .belongsToMany then []
      else itemRules (itemPath n.relation (before ++ n.relation.requestKey)) n := by
  cases n
  rfl

theorem nodeIdPaths_eq (before : String) (n : NestedRelation) :
    nodeIdPaths before n =
      match n.relation.kind with
      | .belongsToMany => []
      | .hasMany => (before ++ n.relation.requestKey ++ ".*.id") ::
        idPaths (before ++ n.relation.requestKey ++ ".*.") n.children
      | _ => idPaths (before ++ n.relation.requestKey ++ ".") n.children := by
  cases n
  rfl

theorem nodeIdPaths_of_single {n : NestedRelation} (hmany : n.relation.kind ≠ .hasMany)
    (hbelongs : n.relation.kind ≠ .belongsToMany) (before : String) :
    nodeIdPaths before n = idPaths (before ++ n.relation.requestKey ++ ".") n.children := by
  rw [nodeIdPaths_eq]
  split <;> simp_all

/-- The rules of a node's items are the paths of their level and identifiers, if what each node
below brings is known. -/
theorem mem_itemRules_iff (n : NestedRelation) (below p : String)
    (hnodes : ∀ child ∈ n.children, (p ∈ (nodeRules below child).map Prod.fst ↔
      p ∈ nodePaths below child ∨ p ∈ nodeIdPaths below child)) :
    p ∈ (itemRules below n).map Prod.fst ↔
      LevelPath below n.fields (supplied n) n.children p ∨ p ∈ idPaths below n.children := by
  have hmem : p ∈ (nodesRules below n.children).map Prod.fst ↔
      (∃ child ∈ n.children, p ∈ nodePaths below child) ∨ p ∈ idPaths below n.children := by
    rw [mem_nodesRules, mem_idPaths, ← exists_or]
    refine exists_congr fun child ↦ ?_
    rw [← and_or_left]
    exact and_congr_right (hnodes child)
  rw [itemRules, List.map_append, List.mem_append, hmem, LevelPath, or_assoc]
  refine or_congr_left ?_
  rw [List.map_map, List.mem_map]
  refine exists_congr fun f ↦ ?_
  rw [List.mem_filter, and_assoc, Function.comp_apply, bne_iff_ne, List.mem_singleton]
  exact and_congr_right fun _ ↦ and_congr_right fun _ ↦ eq_comm

/-- What a node brings to the rules is what it brings to payloads, and identifiers. -/
theorem mem_nodeRules_iff (n : NestedRelation) (before p : String)
    (h : Tidy n.fields n.children) :
    p ∈ (nodeRules before n).map Prod.fst ↔
      p ∈ nodePaths before n ∨ p ∈ nodeIdPaths before n := by
  induction n using NestedRelation.induction_children generalizing before with
  | h n ih =>
    have hitems (below : String) := mem_itemRules_iff n below p
      fun child hchild ↦ ih child hchild below (h.child hchild)
    rw [nodeRules_eq, List.map_append, List.mem_append]
    by_cases hbelongs : n.relation.kind = .belongsToMany
    · rw [nodePaths_of_belongsToMany hbelongs, nodeIdPaths_eq]
      simp [ownRules, hbelongs]
    rw [if_neg (by simpa using hbelongs), hitems]
    by_cases hmany : n.relation.kind = .hasMany
    · rw [nodePaths_of_hasMany hmany h.top, nodeIdPaths_eq]
      simp only [ownRules, itemPath, hmany, beq_self_eq_true, if_true, List.map_cons,
        List.map_nil, List.mem_cons, List.not_mem_nil, or_false]
      tauto
    · rw [nodePaths_of_single hmany hbelongs h.top, nodeIdPaths_of_single hmany hbelongs]
      have hown : (ownRules n.relation (before ++ n.relation.requestKey)).map Prod.fst =
          [before ++ n.relation.requestKey] := by
        rw [ownRules]
        split <;> simp_all
      simp only [hown, itemPath, beq_iff_eq, hmany, if_false, List.mem_singleton, or_assoc]

/-! ## Keys are told apart -/

/-- What can follow a key in a path: nothing, or a dot and more. -/
def IsRest (rest : String) : Prop := rest = "" ∨ ∃ more, rest = "." ++ more

theorem takeWhile_key {key rest : String} (hkey : '.' ∉ key.toList) (hrest : IsRest rest) :
    (key ++ rest).toList.takeWhile (· != '.') = key.toList := by
  have hall : ∀ c ∈ key.toList, (c != '.') = true := by
    intro c hc
    simpa using fun h : c = '.' ↦ hkey (h ▸ hc)
  rw [String.toList_append]
  refine (Text.takeWhile_dropWhile_append hall ?_).1
  rcases hrest with rfl | ⟨more, rfl⟩ <;> simp

/-- A key without dots can be read off a path. -/
theorem key_unique {before key key' rest rest' : String} (hkey : '.' ∉ key.toList)
    (hkey' : '.' ∉ key'.toList) (hrest : IsRest rest) (hrest' : IsRest rest')
    (h : before ++ key ++ rest = before ++ key' ++ rest') : key = key' ∧ rest = rest' := by
  rw [String.append_assoc, String.append_assoc] at h
  have hcut : key ++ rest = key' ++ rest' := by simpa using h
  have hkeys : key = key' := by
    rw [← String.toList_inj, ← takeWhile_key hkey hrest, hcut, takeWhile_key hkey' hrest']
  subst hkeys
  exact ⟨rfl, by simpa using hcut⟩

theorem dot_not_mem_requestKey (r : Relation) : '.' ∉ r.requestKey.toList := by
  intro hdot
  rcases Name.isAlphanum_of_mem_snake _ hdot with h | h <;> simp at h

/-- A path does not go on below a longer one. -/
theorem append_ne_append (path short long more : String)
    (h : short.length < long.length) : path ++ short ≠ path ++ long ++ more := by
  intro heq
  have hlength := congrArg String.length heq
  simp only [String.length_append] at hlength
  omega

theorem isRest_empty : IsRest "" := .inl rfl

theorem isRest_dot (more : String) : IsRest ("." ++ more) := .inr ⟨more, rfl⟩

/-- The paths of a level stand below it, if those of each node do. -/
theorem LevelPath.exists_eq {before p : String} {fields : List Field} {skip : List String}
    {nodes : List NestedRelation} (h : LevelPath before fields skip nodes p)
    (hnodes : ∀ n ∈ nodes, p ∈ nodePaths before n →
      ∃ rest, IsRest rest ∧ p = before ++ n.relation.requestKey ++ rest) :
    ∃ more, p = before ++ more := by
  obtain ⟨f, -, -, rfl⟩ | ⟨n, hn, hp⟩ := h
  · exact ⟨_, rfl⟩
  · obtain ⟨rest, -, rfl⟩ := hnodes n hn hp
    exact ⟨n.relation.requestKey ++ rest, String.append_assoc⟩

/-- What a node brings to payloads stands under its request key. -/
theorem exists_rest_of_mem_nodePaths (n : NestedRelation) {before p : String}
    (h : Tidy n.fields n.children) (hp : p ∈ nodePaths before n) :
    ∃ rest, IsRest rest ∧ p = before ++ n.relation.requestKey ++ rest := by
  induction n using NestedRelation.induction_children generalizing before with
  | h n ih =>
    have hlevel {below : String} (hp : LevelPath below n.fields (supplied n) n.children p) :=
      hp.exists_eq fun child hchild hp ↦ ih child hchild (h.child hchild) hp
    have hself : p = before ++ n.relation.requestKey →
        ∃ rest, IsRest rest ∧ p = before ++ n.relation.requestKey ++ rest :=
      fun hp ↦ ⟨"", isRest_empty, by simpa using hp⟩
    by_cases hbelongs : n.relation.kind = .belongsToMany
    · rcases (nodePaths_of_belongsToMany hbelongs before p).1 hp with hp | hp
      · exact hself hp
      · exact ⟨".*", isRest_dot "*", hp⟩
    by_cases hmany : n.relation.kind = .hasMany
    · rcases (nodePaths_of_hasMany hmany h.top before p).1 hp with hp | hp | hp
      · exact hself hp
      · exact ⟨".*", isRest_dot "*", hp⟩
      · obtain ⟨more, rfl⟩ := hlevel hp
        exact ⟨".*." ++ more, isRest_dot ("*." ++ more), String.append_assoc⟩
    · rcases (nodePaths_of_single hmany hbelongs h.top before p).1 hp with hp | hp
      · exact hself hp
      · obtain ⟨more, rfl⟩ := hlevel hp
        exact ⟨"." ++ more, isRest_dot more, String.append_assoc⟩

/-- The identifiers that a node brings stand under its request key as well, never at it. -/
theorem exists_rest_of_mem_nodeIdPaths (n : NestedRelation) {before p : String}
    (hp : p ∈ nodeIdPaths before n) :
    ∃ more, p = before ++ n.relation.requestKey ++ ("." ++ more) := by
  induction n using NestedRelation.induction_children generalizing before with
  | h n ih =>
    have hlevel {below : String} (hp : p ∈ idPaths below n.children) :
        ∃ more, p = below ++ more := by
      obtain ⟨child, hchild, hp⟩ := mem_idPaths.1 hp
      obtain ⟨more, rfl⟩ := ih child hchild hp
      exact ⟨child.relation.requestKey ++ ("." ++ more), String.append_assoc⟩
    rw [nodeIdPaths_eq] at hp
    split at hp
    · simp at hp
    · rcases List.mem_cons.1 hp with rfl | hp
      · exact ⟨"*.id", rfl⟩
      · obtain ⟨more, rfl⟩ := hlevel hp
        exact ⟨"*." ++ more, String.append_assoc⟩
    · obtain ⟨more, rfl⟩ := hlevel hp
      exact ⟨more, String.append_assoc⟩

theorem exists_more_of_mem_idPaths {nodes : List NestedRelation} {before p : String}
    (hp : p ∈ idPaths before nodes) : ∃ more, p = before ++ more := by
  obtain ⟨n, -, hp⟩ := mem_idPaths.1 hp
  obtain ⟨more, rfl⟩ := exists_rest_of_mem_nodeIdPaths n hp
  exact ⟨n.relation.requestKey ++ ("." ++ more), String.append_assoc⟩

/-- On one level no path is that of an identifier, if that holds below each node: the first key of
a path tells the node that brings it. -/
theorem LevelPath.not_mem_idPaths {before p : String} {fields : List Field} {skip : List String}
    {nodes : List NestedRelation} (hp : LevelPath before fields skip nodes p)
    (h : Tidy fields nodes)
    (hnodes : ∀ n ∈ nodes, p ∈ nodePaths before n → p ∉ nodeIdPaths before n) :
    p ∉ idPaths before nodes := by
  intro hid
  obtain ⟨n, hn, hid⟩ := mem_idPaths.1 hid
  obtain ⟨more, hmore⟩ := exists_rest_of_mem_nodeIdPaths n hid
  have hkey := dot_not_mem_requestKey n.relation
  obtain ⟨f, hf, -, rfl⟩ | ⟨m, hm, hp⟩ := hp
  · have hname : before ++ f.name = before ++ f.name ++ "" := by simp
    rw [hname] at hmore
    exact h.top.apart n hn f hf
      (key_unique (h.top.named f hf).2 hkey isRest_empty (isRest_dot more) hmore).1.symm
  · obtain ⟨rest, hrest, rfl⟩ := exists_rest_of_mem_nodePaths m (h.child hm) hp
    have hsame := (key_unique (dot_not_mem_requestKey m.relation) hkey hrest (isRest_dot more)
      hmore).1
    obtain rfl := List.inj_on_of_nodup_map h.top.keys hm hn hsame
    exact hnodes m hm hp hid

/-- No path that a node brings to payloads is that of an identifier, unless an item of a list nests
something under the key `id`. -/
theorem not_mem_nodeIdPaths (n : NestedRelation) {before p : String}
    (h : Tidy n.fields n.children)
    (hids : ∀ m, NestedRelation.Within [n] m → m.relation.kind = .hasMany →
      ∀ child ∈ m.children, child.relation.requestKey ≠ "id")
    (hp : p ∈ nodePaths before n) : p ∉ nodeIdPaths before n := by
  induction n using NestedRelation.induction_children generalizing before with
  | h n ih =>
    have hbelow (below : String) (hp : LevelPath below n.fields (supplied n) n.children p) :
        p ∉ idPaths below n.children := by
      refine hp.not_mem_idPaths h fun child hchild hp ↦
        ih child hchild (h.child hchild) (fun m hm ↦ hids m ?_) hp
      exact .of_children (List.mem_singleton_self n) (hm.mono (by simpa using hchild))
    by_cases hbelongs : n.relation.kind = .belongsToMany
    · rw [nodeIdPaths_eq, hbelongs]
      exact List.not_mem_nil
    by_cases hmany : n.relation.kind = .hasMany
    · rw [nodeIdPaths_eq, hmany]
      intro hid
      rcases List.mem_cons.1 hid with rfl | hid
      · -- The identifier itself: it is below the item, where no field and no key is `id`.
        rcases (nodePaths_of_hasMany hmany h.top before _).1 hp with hp | hp | hp
        · simp [String.append_assoc] at hp
        · simp [String.append_assoc] at hp
        · have hpath (path : String) : path ++ ".*.id" = path ++ ".*." ++ "id" ++ "" := by
            simp [String.append_assoc]
          rw [hpath] at hp
          obtain ⟨f, hf, -, hname⟩ | ⟨child, hchild, hp⟩ := hp
          · have hid : "id" = f.name := by simpa using hname
            exact (h.top.named f hf).1 (hid ▸ by decide)
          · obtain ⟨rest, hrest, heq⟩ := exists_rest_of_mem_nodePaths child (h.child hchild) hp
            exact hids n (.root (by simp)) hmany child hchild
              (key_unique (by decide) (dot_not_mem_requestKey _) isRest_empty hrest heq).1.symm
      · obtain ⟨more, hmore⟩ := exists_more_of_mem_idPaths hid
        rcases (nodePaths_of_hasMany hmany h.top before p).1 hp with rfl | rfl | hp
        · exact append_ne_append _ "" ".*." more (by decide) (String.append_empty.trans hmore)
        · exact append_ne_append _ ".*" ".*." more (by decide) hmore
        · exact hbelow _ hp hid
    · rw [nodeIdPaths_of_single hmany hbelongs]
      intro hid
      obtain ⟨more, hmore⟩ := exists_more_of_mem_idPaths hid
      rcases (nodePaths_of_single hmany hbelongs h.top before p).1 hp with rfl | hp
      · exact append_ne_append _ "" "." more (by decide) (String.append_empty.trans hmore)
      · exact hbelow _ hp hid

/-! ## Configurations -/

/-- The keys of an example payload are, as paths, those of the rules but for the identifiers of
list items, if on every level keys are told apart and no item of a list nests something under the
key `id`. -/
theorem mem_keyPaths_payload_iff (c : Configuration) (h : Tidy c.fields c.nested)
    (hids : ∀ n, NestedRelation.Within c.nested n → n.relation.kind = .hasMany →
      ∀ child ∈ n.children, child.relation.requestKey ≠ "id") (p : String) :
    (p ∈ (Value.ofPairs (payload c)).keyPaths ↔
      p ∈ (rules c).map Prod.fst ∧ p ∉ idPaths "" c.nested) ∧
    (p ∈ idPaths "" c.nested → p ∈ (rules c).map Prod.fst) := by
  have hpayload : p ∈ (Value.ofPairs (payload c)).keyPaths ↔
      LevelPath "" c.fields [] c.nested p := mem_entryPaths_level h.top "" [] p
  have hfields : p ∈ (c.fields.map fun f ↦ (f.name, f.rule)).map Prod.fst ↔
      ∃ f ∈ c.fields, f.name ∉ [] ∧ p = "" ++ f.name := by
    simp [eq_comm]
  have hrules : p ∈ (rules c).map Prod.fst ↔
      LevelPath "" c.fields [] c.nested p ∨ p ∈ idPaths "" c.nested := by
    rw [rules, Entries.mem_keys_ofList, List.map_append, List.mem_append, hfields, mem_nodesRules,
      LevelPath, mem_idPaths, or_assoc, ← exists_or]
    refine or_congr_right (exists_congr fun n ↦ ?_)
    rw [← and_or_left]
    exact and_congr_right fun hn ↦ mem_nodeRules_iff n "" p (h.child hn)
  have happart : LevelPath "" c.fields [] c.nested p → p ∉ idPaths "" c.nested := fun hp ↦
    hp.not_mem_idPaths h fun n hn ↦ not_mem_nodeIdPaths n (h.child hn) fun m hm ↦
      hids m (hm.mono (by simpa using hn))
  rw [hpayload, hrules]
  exact ⟨⟨fun hp ↦ ⟨.inl hp, happart hp⟩, fun hp ↦ hp.1.resolve_right hp.2⟩, .inr⟩

/-- Authors with books, and books with shops, which are not defined, and a cover. -/
def catalogue : Schema :=
  [("Author", ⟨[("name", "string")], [("hasMany", .line "Book")], ["books"], .unset, [], [], []⟩),
    ("Book", ⟨[("title", "string"), ("data", "json"), ("author_id", "foreignId")],
      [("hasOne", .line "Cover, Shop"), ("belongsToMany", .line "Tag")],
      ["cover", "shop", "tags"], .unset, [], [], []⟩),
    ("Cover", ⟨[("color", "string")], [], [], .unset, [], [], []⟩)]

theorem catalogue_mem_keyPaths_payload_iff :
    ∃ cs t, (Configuration.buildAll catalogue).run.run Memory.empty = (.ok cs, t) ∧
      ∃ c ∈ cs, c.nested ≠ [] ∧ Tidy c.fields c.nested ∧
        (∀ n, NestedRelation.Within c.nested n → n.relation.kind = .hasMany →
          ∀ child ∈ n.children, child.relation.requestKey ≠ "id") ∧
        ∀ p, (p ∈ (Value.ofPairs (payload c)).keyPaths ↔
            p ∈ (rules c).map Prod.fst ∧ p ∉ idPaths "" c.nested) ∧
          (p ∈ idPaths "" c.nested → p ∈ (rules c).map Prod.fst) := by
  obtain ⟨cs, t, hrun, htest⟩ := exists_run_of_passes (Configuration.buildAll catalogue)
    Memory.empty
    (fun cs _ ↦ cs.any fun c ↦ !c.nested.isEmpty && decide (Tidy c.fields c.nested) &&
      decide (∀ n, NestedRelation.Within c.nested n → n.relation.kind = .hasMany →
        ∀ child ∈ n.children, child.relation.requestKey ≠ "id")) (by decide +kernel)
  obtain ⟨c, hc, htest⟩ := List.any_eq_true.1 htest
  simp only [Bool.and_eq_true, decide_eq_true_eq, Bool.not_eq_true', List.isEmpty_eq_false_iff]
    at htest
  obtain ⟨⟨hne, htidy⟩, hids⟩ := htest
  exact ⟨cs, t, hrun, c, hc, hne, htidy, hids, mem_keyPaths_payload_iff c htidy hids⟩

/-- An item of a list that nests something under the key `id`. -/
def chapterEntries : List (Value × Value) :=
  [(.text "Author", .map [(.text "fields", .map [(.text "name", .text "string")]),
      (.text "relations", .map [(.text "hasMany", .text "Book")]),
      (.text "nested_requests", .list [.text "books"])]),
    (.text "Book", .map [(.text "fields", .map [(.text "title", .text "string")]),
      (.text "relations", .map [(.text "hasOne", .text "Chapter:id")]),
      (.text "nested_requests", .list [.text "id"])]),
    (.text "Chapter", .map [(.text "fields", .map [(.text "length", .text "integer")])])]

def chapters : Schema :=
  [("Author", ⟨[("name", "string")], [("hasMany", .line "Book")], ["books"], .unset, [], [], []⟩),
    ("Book", ⟨[("title", "string")], [("hasOne", .line "Chapter:id")], ["id"], .unset, [], [], []⟩),
    ("Chapter", ⟨[("length", "integer")], [], [], .unset, [], [], []⟩)]

theorem chapters_keyPaths_payload_ne :
    Schema.Accepted (.map chapterEntries) chapters ∧
      ∃ cs t, (Configuration.buildAll chapters).run.run Memory.empty = (.ok cs, t) ∧
        ∃ c ∈ cs, Tidy c.fields c.nested ∧
          ¬∀ p, p ∈ (Value.ofPairs (payload c)).keyPaths ↔
            p ∈ (rules c).map Prod.fst ∧ p ∉ idPaths "" c.nested := by
  refine ⟨⟨by decide +kernel, chapterEntries, rfl, rfl⟩, ?_⟩
  obtain ⟨cs, t, hrun, htest⟩ := exists_run_of_passes (Configuration.buildAll chapters)
    Memory.empty
    (fun cs _ ↦ cs.any fun c ↦ decide (Tidy c.fields c.nested) &&
      decide ("books.*.id" ∈ (Value.ofPairs (payload c)).keyPaths) &&
      decide ("books.*.id" ∈ idPaths "" c.nested)) (by decide +kernel)
  obtain ⟨c, hc, htest⟩ := List.any_eq_true.1 htest
  simp only [Bool.and_eq_true, decide_eq_true_eq] at htest
  obtain ⟨⟨htidy, hpath⟩, hid⟩ := htest
  exact ⟨cs, t, hrun, c, hc, htidy, fun hall ↦ ((hall _).1 hpath).2 hid⟩

end Code

end Scaffold
