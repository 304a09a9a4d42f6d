import Mathlib
import Scaffold.Proofs.Code.Assigned
import Scaffold.Proofs.Nesting.Nodes

/-!
# The variables of nested levels

The code for a nested request assigns variables that are named after its level: a prefix and a
suffix stand around the name, which is spelled in camel or in studly case. No spelling changes the
letters of a name, and no prefix and suffix together have all letters of others (`Role`). So the
letters of a variable tell when it cannot belong to two levels (`OfLevel.ne_variableOf`), and what
a request assigns can be described by the letters of its level (`Writer.ofLevel_of_mem_node`).
-/

namespace Scaffold.Code

open Name Stmt

/-! ## Names of variables -/

/-- What a variable of a nested level is for. -/
inductive Role where
  | item | data | nested | record | imageName | created | keep | stale
  /-- The old reference of a file; the field follows the name of the level. -/
  | old
  deriving DecidableEq

namespace Role

instance : Fintype Role :=
  .ofList [item, data, nested, record, imageName, created, keep, stale, old]
    (by intro role; cases role <;> decide)

/-- What stands before the name of the level. -/
def before : Role → String
  | created => "$created"
  | keep => "$keep"
  | stale => "$stale"
  | old => "$old"
  | _ => "$"

/-- What stands after the name of the level. -/
def after : Role → String
  | item => "Item"
  | data => "Data"
  | nested => "Nested"
  | record => "Record"
  | imageName => "ImageName"
  | keep => "Ids"
  | _ => ""

/-- The variable of the level `name` with the given role. -/
def variableOf : Role → String → String
  | created, name => "$created" ++ studly name
  | keep, name => "$keep" ++ studly name ++ "Ids"
  | stale, name => "$stale" ++ studly name
  | old, name => "$old" ++ studly name
  | role, name => "$" ++ name ++ role.after

/-- The letters that variables with the role have besides those of the level. -/
def letters (role : Role) : Multiset Char := Name.letters role.before + Name.letters role.after

/-- No role has all letters of another one. -/
theorem eq_of_letters_le : ∀ role role' : Role, role.letters ≤ role'.letters → role = role' := by
  decide

theorem exists_variableOf_eq (role : Role) (name : String) : ∃ spelled,
    Name.letters spelled = Name.letters name ∧
      role.variableOf name = role.before ++ spelled ++ role.after := by
  cases role
  case created | keep | stale | old => exact ⟨studly name, letters_studly name, by
    simp [variableOf, before, after]⟩
  all_goals exact ⟨name, rfl, rfl⟩

end Role

/-- A variable named after the level `name` or after a longer name. -/
def OfLevel (name v : String) : Prop :=
  ∃ (role : Role) (spelled : String), letters name ≤ letters spelled ∧
    v = role.before ++ spelled ++ role.after

theorem Role.ofLevel (role : Role) (name : String) : OfLevel name (role.variableOf name) := by
  obtain ⟨spelled, hletters, heq⟩ := role.exists_variableOf_eq name
  exact ⟨role, spelled, hletters.ge, heq⟩

theorem ofLevel_oldVariable (name field : String) :
    OfLevel name (Attachment.oldVariable name field) :=
  ⟨.old, studly name ++ studly field, by simp, by
    simp [Attachment.oldVariable, Role.before, Role.after, String.append_assoc]⟩

theorem OfLevel.mono {name name' v : String} (h : OfLevel name' v)
    (hname : letters name ≤ letters name') : OfLevel name v := by
  obtain ⟨role, spelled, hle, rfl⟩ := h
  exact ⟨role, spelled, hname.trans hle, rfl⟩

/-- A level with more letters than another one shares no variable with it. -/
theorem OfLevel.ne_variableOf {name v other : String} (h : OfLevel name v)
    (hlt : letters other < letters name) (role : Role) : v ≠ role.variableOf other := by
  obtain ⟨role', spelled', hle, rfl⟩ := h
  obtain ⟨spelled, hspelled, heq⟩ := role.exists_variableOf_eq other
  intro hv
  have hletters : role'.letters + letters spelled' = role.letters + letters other := by
    rw [← hspelled, Role.letters, Role.letters, add_right_comm,
      add_right_comm (letters role.before)]
    simpa using congrArg letters (hv.trans heq)
  obtain ⟨more, hmore⟩ := Multiset.le_iff_exists_add.1 (hlt.le.trans hle)
  rw [hmore, add_left_comm, add_comm role.letters, add_left_cancel_iff] at hletters
  have hrole : role' = role := Role.eq_of_letters_le _ _ (hletters ▸ Multiset.le_add_right _ _)
  rw [hrole, add_eq_left] at hletters
  rw [hletters, add_zero] at hmore
  exact absurd (hlt.trans_le hle) (hmore ▸ lt_irrefl _)

/-- Could `x` be a variable of the level `name` or of one below? -/
def Reaches (name x : String) : Prop :=
  ∃ role : Role, role.before.toList <+: x.toList ∧ role.after.toList <:+ x.toList ∧
    role.letters + letters name ≤ letters x

instance (name x : String) : Decidable (Reaches name x) :=
  inferInstanceAs (Decidable (∃ role : Role, role.before.toList <+: x.toList ∧
    role.after.toList <:+ x.toList ∧ role.letters + letters name ≤ letters x))

theorem OfLevel.reaches {name v : String} (h : OfLevel name v) : Reaches name v := by
  obtain ⟨role, spelled, hle, rfl⟩ := h
  refine ⟨role, ?_, ?_, ?_⟩
  · simp [List.append_assoc]
  · rw [String.toList_append]
    exact List.suffix_append _ _
  · rw [letters_append, letters_append, add_right_comm]
    exact add_le_add_right hle _

theorem not_reaches_of_mem {x : String} (hx : x ∈ ["$data", "$nested", "$imageName"])
    (name : String) : ¬Reaches name x := by
  have hshape : ∀ x ∈ ["$data", "$nested", "$imageName"], ∀ role : Role,
      ¬(role.before.toList <+: x.toList ∧ role.after.toList <:+ x.toList) := by decide
  rintro ⟨role, hbefore, hafter, -⟩
  exact hshape x hx role ⟨hbefore, hafter⟩

/-! ## Names of levels -/

theorem letters_pathName (path key : String) :
    letters (pathName path key) = letters path + letters key := by
  rw [pathName]
  split
  · next h => simp [eq_of_beq h]
  · have hdash : letters "_" = 0 := by decide
    simp [hdash]

theorem letters_le_pathName (path key : String) : letters path ≤ letters (pathName path key) := by
  rw [letters_pathName]
  exact Multiset.le_add_right _ _

theorem isName_pathName (path key : String) : IsName (pathName path key) := by
  rw [pathName]
  split <;> exact isName_camel _

theorem Role.isVariable {name : String} (hname : IsName name) (role : Role) :
    IsVariable (role.variableOf name) := by
  have hstudly (before : String) (hbefore : IsVariable before) :
      IsVariable (before ++ studly name) := hbefore.append (isName_studly name)
  have hplain (after : String) (hafter : IsName after) : IsVariable ("$" ++ name ++ after) :=
    (isVariable_of_isName hname).append hafter
  cases role
  case created => exact hstudly _ ⟨"created".toList, by decide, rfl⟩
  case keep =>
    exact (hstudly _ ⟨"keep".toList, by decide, rfl⟩).append (by decide)
  case stale => exact hstudly _ ⟨"stale".toList, by decide, rfl⟩
  case old => exact hstudly _ ⟨"old".toList, by decide, rfl⟩
  all_goals exact hplain _ (by decide)

/-! ## Code that deletes stale records -/

theorem purgeNodes_eq_flatMap (record path : String) (nodes : List NestedRelation) :
    purgeNodes record path nodes = nodes.flatMap fun n ↦ purgeNodes record path [n] := by
  induction nodes with
  | nil => simp [purgeNodes]
  | cons n rest ih =>
    rw [List.flatMap_cons, ← ih]
    cases n
    simp [purgeNodes]

theorem mem_purgeTree {fields : List Field} {record path v : String}
    {children : List NestedRelation} : v ∈ allAssigns (purgeTree fields record path children) ↔
      ∃ child ∈ children, v ∈ allAssigns (purgeNodes record path [child]) := by
  rw [purgeTree, allAssigns_append, Attachment.allAssigns_purgeCode, List.nil_append,
    purgeNodes_eq_flatMap, allAssigns_eq_flatMap, List.flatMap_assoc, List.mem_flatMap]
  simp only [allAssigns_eq_flatMap]

/-- Deleting the files of nested records assigns only the variables of loops over them. -/
theorem ofLevel_of_mem_purgeNodes (n : NestedRelation) (record path : String) :
    ∀ v ∈ allAssigns (purgeNodes record path [n]), OfLevel path v := by
  induction n using NestedRelation.induction_children generalizing record path with
  | h n ih =>
    obtain ⟨parent, r, fields, children⟩ := n
    have hle := letters_le_pathName path r.requestKey
    have hbelow {record' v : String} (hv : v ∈ allAssigns
        (purgeTree fields record' (pathName path r.requestKey) children)) : OfLevel path v := by
      obtain ⟨child, hchild, hv⟩ := mem_purgeTree.1 hv
      exact (ih child hchild _ _ v hv).mono hle
    intro v hv
    simp only [purgeNodes, List.append_nil] at hv
    split at hv
    · simp at hv
    · split at hv
      · have hitem := Role.isVariable (isName_pathName path r.requestKey) .item
        rw [allAssigns_singleton] at hv
        rcases hitem.eq_or_mem_of_loop hv (by simp [toString]) with rfl | hv
        · exact (Role.item.ofLevel _).mono hle
        · exact hbelow hv
      · rw [allAssigns_singleton, assigns_if _ (by simp [toString]; rfl)] at hv
        exact hbelow hv

/-- The variables that the code of the level `name` assigns itself: those with a role, the old
references of files, and those of loops over records below stale ones. -/
inductive Own (name : String) : String → Prop where
  | role (role : Role) : Own name (role.variableOf name)
  | file (field : String) : Own name (Attachment.oldVariable name field)
  | stale {v : String} (h : OfLevel ("stale_" ++ name) v) : Own name v

theorem Own.ofLevel {name v : String} (h : Own name v) : OfLevel name v := by
  cases h with
  | role role => exact role.ofLevel name
  | file field => exact ofLevel_oldVariable name field
  | stale h =>
    refine h.mono ?_
    rw [letters_append]
    exact Multiset.le_add_left _ _

/-! ## Writing nested records -/

/-- The generated methods that write nested records. -/
inductive Writer where
  | store
  | update

namespace Writer

/-- The code for one nested request. -/
def node : Writer → (parent nested path : String) → NestedRelation → List Stmt
  | store => storeNode
  | update => updateNode

/-- The role of the variable that holds the record which the next level hangs on. -/
def parent : Writer → Role
  | store => .created
  | update => .record

/-- The code for a request nested in the level `name`. -/
def below (w : Writer) (name : String) (child : NestedRelation) : List Stmt :=
  w.node (w.parent.variableOf name) (Role.nested.variableOf name) name child

def body : Writer → Configuration → List Stmt
  | store => storeBody
  | update => updateBody

end Writer

theorem storeNodes_eq_map (parent nested path : String) (nodes : List NestedRelation) :
    storeNodes parent nested path nodes = nodes.map (storeNode parent nested path) := by
  induction nodes with
  | nil => rw [storeNodes, List.map_nil]
  | cons n rest ih => rw [storeNodes, ih, List.map_cons]

theorem updateNodes_eq_map (parent nested path : String) (nodes : List NestedRelation) :
    updateNodes parent nested path nodes = nodes.map (updateNode parent nested path) := by
  induction nodes with
  | nil => rw [updateNodes, List.map_nil]
  | cons n rest ih => rw [updateNodes, ih, List.map_cons]

/-! ## Storing -/

/-- The code that stores one record of a level. -/
def storeLevel (parent name payload : String) (n : NestedRelation) : List Stmt :=
  let data := Role.data.variableOf name
  let slug := Role.imageName.variableOf name
  spaced
    [splitCode payload (payloadKeys n.children) (Role.nested.variableOf name) data [],
      Attachment.nameCode n.fields data slug none ++
        Attachment.uploadCode n.fields n.relation.target data slug,
      [.line s!"{Role.created.variableOf name} = {parent}->{n.relation.name}()->create({data});"],
      spaced (n.children.map (Writer.store.below name))]

theorem storeNode_of_belongsToMany {n : NestedRelation} (h : n.relation.kind = .belongsToMany)
    (parent nested path : String) :
    storeNode parent nested path n = syncCode "Attach" parent nested n.relation := by
  cases n
  simp only [storeNode, beq_iff_eq]
  exact if_pos h

theorem storeNode_eq {n : NestedRelation} (h : n.relation.kind ≠ .belongsToMany)
    (parent nested path : String) : storeNode parent nested path n =
      let name := pathName path n.relation.requestKey
      let item := Role.item.variableOf name
      let source := s!"{nested}['{n.relation.requestKey}']"
      [.line s!"// Create {n.relation.name}",
        if n.relation.kind = .hasMany then
          .braces s!"foreach ({source} ?? [] as {item})" (storeLevel parent name item n)
        else .braces s!"if (!empty({source}))" (storeLevel parent name source n)] := by
  obtain ⟨_, r, fields, children⟩ := n
  simp only [storeNode, beq_iff_eq, if_neg h, storeLevel, storeNodes_eq_map]
  split <;> rfl

theorem mem_storeLevel {parent name payload v : String} {n : NestedRelation} (hname : IsName name)
    (hv : v ∈ allAssigns (storeLevel parent name payload n)) :
    Own name v ∨ ∃ child ∈ n.children, v ∈ allAssigns (Writer.store.below name child) := by
  have hrole (role : Role) : IsVariable (role.variableOf name) := role.isVariable hname
  simp only [storeLevel, allAssigns_spaced, List.flatMap_cons, List.flatMap_nil, List.append_nil,
    allAssigns_append, List.mem_append, List.flatMap_map, List.mem_flatMap] at hv
  rcases hv with hv | (hv | hv) | hv | hv
  · have := allAssigns_splitCode_subset (hrole .nested) (hrole .data) _ _ _ hv
    simp only [List.mem_cons, List.not_mem_nil, or_false] at this
    rcases this with rfl | rfl <;> exact .inl (.role _)
  · rw [List.mem_singleton.1 (Attachment.allAssigns_nameCode_subset (hrole .imageName) _ _ _ hv)]
    exact .inl (.role _)
  · rw [List.mem_singleton.1 (Attachment.allAssigns_uploadCode_subset (hrole .data) _ _ _ hv)]
    exact .inl (.role _)
  · rw [allAssigns_singleton, (hrole .created).assigns_of_equals (by simp [toString]; rfl),
      List.mem_singleton] at hv
    exact .inl (hv ▸ .role _)
  · exact .inr hv

theorem mem_storeNode {parent nested path v : String} {n : NestedRelation}
    (hparent : IsVariable parent) (hv : v ∈ allAssigns (storeNode parent nested path n)) :
    Own (pathName path n.relation.requestKey) v ∨ ∃ child ∈ n.children,
      v ∈ allAssigns (Writer.store.below (pathName path n.relation.requestKey) child) := by
  have hname := isName_pathName path n.relation.requestKey
  by_cases hkind : n.relation.kind = .belongsToMany
  · simp [storeNode_of_belongsToMany hkind, allAssigns_syncCode hparent] at hv
  · rw [storeNode_eq hkind, allAssigns, assigns_of_head?_ne (by simp [toString]), List.nil_append,
      allAssigns_singleton] at hv
    split at hv
    · rcases (Role.item.isVariable hname).eq_or_mem_of_loop hv (by simp [toString]) with rfl | hv
      · exact .inl (.role _)
      · exact mem_storeLevel hname hv
    · rw [assigns_if _ (by simp [toString]; rfl)] at hv
      exact mem_storeLevel hname hv

/-- The code of a level holds that of the levels below. -/
theorem below_subset_storeNode {n child : NestedRelation} (hkind : n.relation.kind ≠ .belongsToMany)
    (hchild : child ∈ n.children) (parent nested path : String) :
    allAssigns (Writer.store.below (pathName path n.relation.requestKey) child) ⊆
      allAssigns (storeNode parent nested path n) := by
  have hlevel (payload : String) :
      allAssigns (Writer.store.below (pathName path n.relation.requestKey) child) ⊆ allAssigns
        (storeLevel parent (pathName path n.relation.requestKey) payload n) := by
    intro v hv
    simp only [storeLevel, allAssigns_spaced, List.flatMap_cons, List.mem_append,
      List.flatMap_map, List.mem_flatMap]
    exact .inr (.inr (.inr (.inl ⟨child, hchild, hv⟩)))
  intro v hv
  rw [storeNode_eq hkind, allAssigns, List.mem_append, allAssigns_singleton]
  refine .inr ?_
  split
  · exact allAssigns_subset_assigns_braces _ _ (hlevel _ hv)
  · exact allAssigns_subset_assigns_braces _ _ (hlevel _ hv)

/-! ## Updating -/

/-- The code that updates or creates one record of a level: `find` looks it up before and
`kept` remembers it afterwards. -/
def updateLevel (parent name payload find : String) (kept : List Stmt) (n : NestedRelation) :
    List Stmt :=
  let data := Role.data.variableOf name
  let record := Role.record.variableOf name
  let slug := Role.imageName.variableOf name
  spaced
    [splitCode payload (payloadKeys n.children) (Role.nested.variableOf name) data ["id"] ++
        [.line find] ++ Attachment.captureCode n.fields (record ++ "?") name,
      Attachment.nameCode n.fields data slug (some (record ++ "?")) ++
        Attachment.uploadCode n.fields n.relation.target data slug,
      persistCode record s!"{parent}->{n.relation.name}" data ::
        Attachment.releaseCode n.fields data name,
      kept,
      spaced (n.children.map (Writer.update.below name))]

theorem updateNode_of_belongsToMany {n : NestedRelation} (h : n.relation.kind = .belongsToMany)
    (parent nested path : String) :
    updateNode parent nested path n = syncCode "Sync" parent nested n.relation := by
  cases n
  simp only [updateNode, beq_iff_eq]
  exact if_pos h

theorem updateNode_of_hasMany {n : NestedRelation} (h : n.relation.kind = .hasMany)
    (parent nested path : String) : updateNode parent nested path n =
      let key := n.relation.requestKey
      let name := pathName path key
      let item := Role.item.variableOf name
      let record := Role.record.variableOf name
      let accessor := s!"{parent}->{n.relation.name}"
      let source := s!"{nested}['{key}']"
      let keep := Role.keep.variableOf name
      [.line s!"// Sync {n.relation.name}",
        .braces s!"if (array_key_exists('{key}', {nested}))" <| spaced
          [[.line s!"{keep} = [];"],
            [.braces s!"foreach ({source} ?? [] as {item})" <|
              updateLevel parent name item
                s!"{record} = isset({item}['id']) ? {accessor}()->find({item}['id']) : null;"
                [.line s!"{keep}[] = {record}->id;"] n],
            staleCode n.fields n.children accessor keep name]] := by
  obtain ⟨_, r, fields, children⟩ := n
  simp only [updateNode, beq_iff_eq, updateLevel, updateNodes_eq_map]
  replace h : r.kind = .hasMany := h
  simp only [h, if_true, reduceCtorEq, if_false]
  rfl

theorem updateNode_of_single {n : NestedRelation} (h : n.relation.kind ≠ .belongsToMany)
    (hmany : n.relation.kind ≠ .hasMany) (parent nested path : String) :
    updateNode parent nested path n =
      let name := pathName path n.relation.requestKey
      let source := s!"{nested}['{n.relation.requestKey}']"
      let accessor := s!"{parent}->{n.relation.name}"
      [.line s!"// Sync {n.relation.name}",
        .braces s!"if (!empty({source}))" <| updateLevel parent name source
          s!"{Role.record.variableOf name} = {accessor};" [] n] := by
  obtain ⟨_, r, fields, children⟩ := n
  simp only [updateNode, beq_iff_eq, if_neg h, if_neg hmany, updateLevel, updateNodes_eq_map]
  rfl

theorem mem_updateLevel {parent name payload find v : String} {kept : List Stmt}
    {n : NestedRelation} (hname : IsName name)
    (hfind : assigns (.line find) = [Role.record.variableOf name])
    (hkept : ∀ v ∈ allAssigns kept, Own name v)
    (hv : v ∈ allAssigns (updateLevel parent name payload find kept n)) :
    Own name v ∨ ∃ child ∈ n.children, v ∈ allAssigns (Writer.update.below name child) := by
  have hrole (role : Role) : IsVariable (role.variableOf name) := role.isVariable hname
  simp only [updateLevel, allAssigns_spaced, List.flatMap_cons, List.flatMap_nil, List.append_nil,
    allAssigns_append, hfind, allAssigns, Attachment.allAssigns_releaseCode,
    assigns_persistCode (hrole .record), List.mem_append, List.flatMap_map, List.mem_flatMap,
    List.mem_singleton] at hv
  rcases hv with ((hv | rfl) | hv) | (hv | hv) | rfl | hv | hv
  · have := allAssigns_splitCode_subset (hrole .nested) (hrole .data) _ _ _ hv
    simp only [List.mem_cons, List.not_mem_nil, or_false] at this
    rcases this with rfl | rfl <;> exact .inl (.role _)
  · exact .inl (.role _)
  · obtain ⟨field, rfl⟩ := Attachment.exists_of_mem_captureCode hv
    exact .inl (.file field)
  · rw [List.mem_singleton.1 (Attachment.allAssigns_nameCode_subset (hrole .imageName) _ _ _ hv)]
    exact .inl (.role _)
  · rw [List.mem_singleton.1 (Attachment.allAssigns_uploadCode_subset (hrole .data) _ _ _ hv)]
    exact .inl (.role _)
  · exact .inl (.role _)
  · exact .inl (hkept v hv)
  · exact .inr hv

theorem own_of_mem_staleCode {parent name relation keep v : String} {fields : List Field}
    {children : List NestedRelation} (hparent : IsVariable parent)
    (hv : v ∈ allAssigns (staleCode fields children s!"{parent}->{relation}" keep name)) :
    Own name v := by
  have hstale : IsVariable (Role.stale.variableOf name) :=
    IsVariable.append ⟨"stale".toList, by decide, rfl⟩ (isName_studly name)
  rw [staleCode, allAssigns_append, List.mem_append] at hv
  rcases hv with hv | hv
  · split at hv
    · rw [allAssigns_singleton] at hv
      rcases hstale.eq_or_mem_of_loop hv (by simp [toString]) with rfl | hv
      · exact .role _
      · obtain ⟨child, -, hv⟩ := mem_purgeTree.1 hv
        exact .stale (ofLevel_of_mem_purgeNodes child _ _ v hv)
    · simp at hv
  · rw [allAssigns_singleton, hparent.assigns_of_arrow (by simp [toString]; rfl)] at hv
    simp at hv

theorem mem_updateNode {parent nested path v : String} {n : NestedRelation}
    (hparent : IsVariable parent) (hv : v ∈ allAssigns (updateNode parent nested path n)) :
    Own (pathName path n.relation.requestKey) v ∨ ∃ child ∈ n.children,
      v ∈ allAssigns (Writer.update.below (pathName path n.relation.requestKey) child) := by
  have hname := isName_pathName path n.relation.requestKey
  have hrole (role : Role) := role.isVariable hname
  by_cases hkind : n.relation.kind = .belongsToMany
  · simp [updateNode_of_belongsToMany hkind, allAssigns_syncCode hparent] at hv
  · by_cases hmany : n.relation.kind = .hasMany
    · rw [updateNode_of_hasMany hmany, allAssigns, assigns_of_head?_ne (by simp [toString]),
        List.nil_append, allAssigns_singleton, assigns_if _ (by simp [toString]; rfl)] at hv
      simp only [allAssigns_spaced, List.flatMap_cons, List.flatMap_nil, List.append_nil,
        allAssigns_singleton, List.mem_append] at hv
      rcases hv with hv | hv | hv
      · rw [(hrole .keep).assigns_of_equals (by simp [toString]; rfl), List.mem_singleton] at hv
        exact .inl (hv ▸ .role _)
      · rcases (hrole .item).eq_or_mem_of_loop hv (by simp [toString]) with rfl | hv
        · exact .inl (.role _)
        · refine mem_updateLevel hname ((hrole .record).assigns_of_equals
            (by simp [toString]; rfl)) (fun v hv ↦ ?_) hv
          rw [allAssigns_singleton, (hrole .keep).assigns_of_index (by simp [toString]; rfl),
            List.mem_singleton] at hv
          exact hv ▸ .role _
      · exact .inl (own_of_mem_staleCode hparent hv)
    · rw [updateNode_of_single hkind hmany, allAssigns, assigns_of_head?_ne (by simp [toString]),
        List.nil_append, allAssigns_singleton, assigns_if _ (by simp [toString]; rfl)] at hv
      exact mem_updateLevel hname ((hrole .record).assigns_of_equals (by simp [toString]; rfl))
        (by simp) hv

theorem below_subset_updateNode {n child : NestedRelation}
    (hkind : n.relation.kind ≠ .belongsToMany) (hchild : child ∈ n.children)
    (parent nested path : String) :
    allAssigns (Writer.update.below (pathName path n.relation.requestKey) child) ⊆
      allAssigns (updateNode parent nested path n) := by
  have hlevel (payload find : String) (kept : List Stmt) :
      allAssigns (Writer.update.below (pathName path n.relation.requestKey) child) ⊆ allAssigns
        (updateLevel parent (pathName path n.relation.requestKey) payload find kept n) := by
    intro v hv
    simp only [updateLevel, allAssigns_spaced, List.flatMap_cons, List.mem_append,
      List.flatMap_map, List.mem_flatMap]
    exact .inr (.inr (.inr (.inr (.inl ⟨child, hchild, hv⟩))))
  intro v hv
  by_cases hmany : n.relation.kind = .hasMany
  · rw [updateNode_of_hasMany hmany, allAssigns, List.mem_append, allAssigns_singleton]
    refine .inr (allAssigns_subset_assigns_braces _ _ ?_)
    simp only [allAssigns_spaced, List.flatMap_cons, List.mem_append, allAssigns_singleton]
    exact .inr (.inl (allAssigns_subset_assigns_braces _ _ (hlevel _ _ _ hv)))
  · rw [updateNode_of_single hkind hmany, allAssigns, List.mem_append, allAssigns_singleton]
    exact .inr (allAssigns_subset_assigns_braces _ _ (hlevel _ _ _ hv))

/-! ## What a nested request assigns -/

namespace Writer

/-- The code of a nested request assigns its own variables and those in the code of the requests
nested in it. -/
theorem mem_node (w : Writer) {parent nested path v : String} {n : NestedRelation}
    (hparent : IsVariable parent) (hv : v ∈ allAssigns (w.node parent nested path n)) :
    Own (pathName path n.relation.requestKey) v ∨ ∃ child ∈ n.children,
      v ∈ allAssigns (w.below (pathName path n.relation.requestKey) child) := by
  cases w
  · exact mem_storeNode hparent hv
  · exact mem_updateNode hparent hv

theorem below_subset_node (w : Writer) {n child : NestedRelation}
    (hkind : n.relation.kind ≠ .belongsToMany) (hchild : child ∈ n.children)
    (parent nested path : String) :
    allAssigns (w.below (pathName path n.relation.requestKey) child) ⊆
      allAssigns (w.node parent nested path n) := by
  cases w
  · exact below_subset_storeNode hkind hchild parent nested path
  · exact below_subset_updateNode hkind hchild parent nested path

theorem ofLevel_of_mem_node (w : Writer) (n : NestedRelation) {parent nested path v : String}
    (hparent : IsVariable parent) (hv : v ∈ allAssigns (w.node parent nested path n)) :
    OfLevel (pathName path n.relation.requestKey) v := by
  induction n using NestedRelation.induction_children generalizing parent nested path with
  | h n ih =>
    rcases w.mem_node hparent hv with hv | ⟨child, hchild, hv⟩
    · exact hv.ofLevel
    · have hrecord := w.parent.isVariable (isName_pathName path n.relation.requestKey)
      exact (ih child hchild hrecord hv).mono (letters_le_pathName _ _)

end Writer

end Scaffold.Code
