import Mathlib
import Scaffold.Proofs.Code.Fresh

/-!
# Where the code of a level stands

The code that writes one record of a level stands in one piece in the body of its method, inside the
blocks of the levels above (`IsLevel.inside`). So what is to be said of every level of a tree can be
said of the code of one level.
-/

namespace Scaffold.Code

open Stmt

variable {c : Configuration} {w : Writer} {branch above : List NestedRelation} {n : NestedRelation}

/-- The levels of a tree: that of the primary record, and one for each nested request whose records
are written. -/
inductive IsLevel (c : Configuration) : List NestedRelation → Prop where
  | primary : IsLevel c []
  | nested {n : NestedRelation} {above : List NestedRelation} (h : Branch c.nested (n :: above))
      (hkind : n.relation.kind ≠ .belongsToMany) : IsLevel c (n :: above)

/-- The variable of the record of a level. -/
def Writer.record (w : Writer) (c : Configuration) : List NestedRelation → String
  | [] => recordVariable c
  | n :: above => w.parent.variableOf (levelName (n :: above))

/-- The variable that holds the payloads of the requests nested in a level. -/
def nestedVariable : List NestedRelation → String
  | [] => "$nested"
  | n :: above => Role.nested.variableOf (levelName (n :: above))

/-- The variable that holds the data of a record. -/
def dataVariable : List NestedRelation → String
  | [] => "$data"
  | n :: above => Role.data.variableOf (levelName (n :: above))

/-- The variable that holds the name of uploaded files. -/
def slugVariable : List NestedRelation → String
  | [] => "$imageName"
  | n :: above => Role.imageName.variableOf (levelName (n :: above))

/-- The requests that are nested in a level. -/
def requests (c : Configuration) : List NestedRelation → List NestedRelation
  | [] => c.nested
  | n :: _ => n.children

/-- The fields of the records of a level. -/
def levelFields (c : Configuration) : List NestedRelation → List Field
  | [] => c.fields
  | n :: _ => n.fields

/-- The entity of the records of a level. -/
def levelEntity (c : Configuration) : List NestedRelation → String
  | [] => c.studly
  | n :: _ => n.relation.target

/-- The expression for the payload of one record of a nested level: an item of a list, or the whole
payload of the request. -/
def levelPayload (n : NestedRelation) (above : List NestedRelation) : String :=
  if n.relation.kind = .hasMany then Role.item.variableOf (levelName (n :: above))
  else s!"{nestedVariable above}['{n.relation.requestKey}']"

/-- The expression for the record of a level as it was before an update. A nested record may be
missing. -/
def earlier (c : Configuration) : List NestedRelation → String
  | [] => recordVariable c
  | n :: above => Role.record.variableOf (levelName (n :: above)) ++ "?"

/-- The line that looks up the record of a nested level before it is updated. -/
def lookUp (c : Configuration) (n : NestedRelation) (above : List NestedRelation) : String :=
  let record := Role.record.variableOf (levelName (n :: above))
  let item := Role.item.variableOf (levelName (n :: above))
  let accessor := s!"{Writer.update.record c above}->{n.relation.name}"
  if n.relation.kind = .hasMany then
    s!"{record} = isset({item}['id']) ? {accessor}()->find({item}['id']) : null;"
  else s!"{record} = {accessor};"

/-- Looks up what an update has to know of the record of a level. -/
def find (c : Configuration) : List NestedRelation → List Stmt
  | [] => []
  | n :: above => [.line (lookUp c n above)]

/-- What is remembered of a record that was updated: its identifier, if it is one of several. -/
def remember : List NestedRelation → List Stmt
  | [] => []
  | n :: above =>
    let name := levelName (n :: above)
    if n.relation.kind = .hasMany then
      [.line s!"{Role.keep.variableOf name}[] = {Role.record.variableOf name}->id;"]
    else []

/-- The code that writes the row of a level. -/
def Writer.persist (w : Writer) (c : Configuration) : List NestedRelation → List Stmt
  | [] =>
    match w with
    | store => [.line s!"{recordVariable c} = {c.studly}::create($data);"]
    | update => [.line s!"{recordVariable c}->update($data);"]
  | n :: above =>
    let record := w.record c (n :: above)
    let parent := w.record c above
    let data := dataVariable (n :: above)
    match w with
    | store => [.line s!"{record} = {parent}->{n.relation.name}()->create({data});"]
    | update => [persistCode record s!"{parent}->{n.relation.name}" data]

/-- The code that writes one record of a level and what is nested in it. -/
def Writer.levelCode (w : Writer) (c : Configuration) : List NestedRelation → List Stmt
  | [] =>
    match w with
    | store => storeTransaction c
    | update => updateTransaction c
  | n :: above =>
    match w with
    | store => storeLevel (store.record c above) (levelName (n :: above)) (levelPayload n above) n
    | update =>
      updateLevel (update.record c above) (levelName (n :: above)) (levelPayload n above)
        (lookUp c n above) (remember (n :: above)) n

/-! ## Code for nested requests -/

theorem Writer.code_cons (w : Writer) (c : Configuration) (n : NestedRelation)
    (above : List NestedRelation) : w.code c (n :: above) =
      w.node (w.record c above) (nestedVariable above) (levelName above) n := by
  cases above <;> rfl

/-- Deletes the records of a level that an update does not keep. -/
def dropStale (c : Configuration) (n : NestedRelation) (above : List NestedRelation) : List Stmt :=
  let name := levelName (n :: above)
  staleCode n.fields n.children s!"{Writer.update.record c above}->{n.relation.name}"
    (Role.keep.variableOf name) name

/-- The head of the block that the code of a nested level stands in, without its bracket. -/
def opening (n : NestedRelation) (above : List NestedRelation) : String :=
  let source := s!"{nestedVariable above}['{n.relation.requestKey}']"
  if n.relation.kind = .hasMany then
    s!"foreach ({source} ?? [] as {Role.item.variableOf (levelName (n :: above))})"
  else s!"if (!empty({source}))"

theorem storeCode_eq (hkind : n.relation.kind ≠ .belongsToMany) :
    Writer.store.code c (n :: above) = [.line s!"// Create {n.relation.name}",
      .braces (opening n above) (Writer.store.levelCode c (n :: above))] := by
  rw [Writer.code_cons, Writer.node, storeNode_eq hkind, Writer.levelCode, levelPayload, opening]
  split <;> rfl

theorem updateCode_of_hasMany (hmany : n.relation.kind = .hasMany) :
    Writer.update.code c (n :: above) = [.line s!"// Sync {n.relation.name}",
      .braces s!"if (array_key_exists('{n.relation.requestKey}', {nestedVariable above}))" <| spaced
        [[.line s!"{Role.keep.variableOf (levelName (n :: above))} = [];"],
          [.braces (opening n above) (Writer.update.levelCode c (n :: above))],
          dropStale c n above]] := by
  rw [Writer.code_cons, Writer.node, updateNode_of_hasMany hmany, Writer.levelCode, levelPayload,
    lookUp, remember, opening, if_pos hmany, if_pos hmany, if_pos hmany, if_pos hmany]
  rfl

theorem updateCode_of_single (hkind : n.relation.kind ≠ .belongsToMany)
    (hmany : n.relation.kind ≠ .hasMany) :
    Writer.update.code c (n :: above) = [.line s!"// Sync {n.relation.name}",
      .braces (opening n above) (Writer.update.levelCode c (n :: above))] := by
  rw [Writer.code_cons, Writer.node, updateNode_of_single hkind hmany, Writer.levelCode, levelPayload,
    lookUp, remember, opening, if_neg hmany, if_neg hmany, if_neg hmany, if_neg hmany]
  rfl

/-- The code for a nested request holds that of its level. -/
theorem Writer.inside_code (w : Writer) (c : Configuration)
    (hkind : n.relation.kind ≠ .belongsToMany) (above : List NestedRelation) :
    Inside (w.levelCode c (n :: above)) (w.code c (n :: above)) := by
  have hopening {rest : List Stmt} : Inside (w.levelCode c (n :: above))
      (rest ++ [braces (opening n above) (w.levelCode c (n :: above))]) :=
    (inside_braces _ _).trans (inside_of_mem (List.mem_append_right _ List.mem_cons_self))
  cases w with
  | store =>
    rw [storeCode_eq hkind]
    exact @hopening [_]
  | update =>
    by_cases hmany : n.relation.kind = .hasMany
    · rw [updateCode_of_hasMany hmany]
      refine Inside.trans ?_ (inside_of_mem (List.mem_cons_of_mem _ List.mem_cons_self))
      refine Inside.trans ?_ (inside_braces _ _)
      refine Inside.trans ?_ (inside_spaced (List.mem_cons_of_mem _ List.mem_cons_self))
      exact @hopening []
    · rw [updateCode_of_single hkind hmany]
      exact @hopening [_]

theorem dropStale_inside (hmany : n.relation.kind = .hasMany) :
    Inside (dropStale c n above) (Writer.update.code c (n :: above)) := by
  rw [updateCode_of_hasMany hmany]
  refine Inside.trans ?_ (inside_of_mem (List.mem_cons_of_mem _ List.mem_cons_self))
  refine Inside.trans ?_ (inside_braces _ _)
  exact inside_spaced (by simp)

/-- The code for all requests that are nested in a level. -/
def Writer.belowCode (w : Writer) (c : Configuration) (branch : List NestedRelation) : List Stmt :=
  spaced ((requests c branch).map
    (w.node (w.record c branch) (nestedVariable branch) (levelName branch)))

theorem Writer.belowCode_nil (w : Writer) (c : Configuration) : w.belowCode c [] =
    match w with
    | store => storeRelations c.nested (recordVariable c) "$nested" ""
    | update => updateRelations c.nested (recordVariable c) "$nested" "" := by
  cases w with
  | store =>
    rw [storeRelations, storeNodes_eq_map]
    rfl
  | update =>
    rw [updateRelations, updateNodes_eq_map]
    rfl

theorem Writer.belowCode_cons (w : Writer) (c : Configuration) (n : NestedRelation)
    (above : List NestedRelation) : w.belowCode c (n :: above) =
      spaced (n.children.map (w.below (levelName (n :: above)))) := rfl

theorem Writer.belowCode_inside (w : Writer) (c : Configuration) (branch : List NestedRelation) :
    Inside (w.belowCode c branch) (w.levelCode c branch) := by
  cases branch with
  | nil =>
    rw [belowCode_nil]
    cases w with
    | store => exact inside_spaced (by simp)
    | update => exact inside_spaced (by simp)
  | cons n above =>
    rw [belowCode_cons]
    cases w with
    | store => exact inside_spaced (by simp)
    | update => exact inside_spaced (by simp)

/-! ## The parts of a level -/

/-- The expression for the data of one record of a level, with the nested payloads in it. -/
def levelSource : List NestedRelation → String
  | [] => "$data"
  | n :: above => levelPayload n above

/-- What the data of a record must not hold besides the nested payloads. -/
def Writer.more (w : Writer) : List NestedRelation → List String
  | [] => []
  | _ :: _ =>
    match w with
    | store => []
    | update => ["id"]

/-- Splits the payloads of the requests nested in a level off the data of its record. -/
def Writer.split (w : Writer) (c : Configuration) : List NestedRelation → List Stmt
  | [] => primarySplit c
  | n :: above =>
    splitCode (levelPayload n above) (payloadKeys n.children) (nestedVariable (n :: above))
      (dataVariable (n :: above)) (w.more (n :: above))

/-- What is done before the row of a level is written: its files are stored. -/
def Writer.before (w : Writer) (c : Configuration) (branch : List NestedRelation) : List Stmt :=
  let fields := levelFields c branch
  let data := dataVariable branch
  let slug := slugVariable branch
  let upload := Attachment.uploadCode fields (levelEntity c branch) data slug
  match w with
  | store => Attachment.nameCode fields data slug none ++ upload
  | update =>
    find c branch ++ Attachment.captureCode fields (earlier c branch) (levelName branch) ++
      (Attachment.nameCode fields data slug (some (earlier c branch)) ++ upload)

/-- What is done right after the row of a level was written. -/
def Writer.settle (w : Writer) (c : Configuration) (branch : List NestedRelation) : List Stmt :=
  match w with
  | store => []
  | update =>
    Attachment.releaseCode (levelFields c branch) (dataVariable branch) (levelName branch) ++
      remember branch

/-- What a method returns, at the end of the code of the primary record. -/
def returned (c : Configuration) : List NestedRelation → List Stmt
  | [] => [returnCode c]
  | _ :: _ => []

/-- The code of a level, once the nested payloads are split off. -/
def Writer.afterSplit (w : Writer) (c : Configuration) (branch : List NestedRelation) : List Stmt :=
  w.before c branch ++ w.persist c branch ++ w.settle c branch ++ w.belowCode c branch ++
    returned c branch

section

variable {α : Type} (f : Stmt → List α) (hgap : f gap = []) (w : Writer) (c : Configuration)

include hgap

theorem flatMap_levelCode_nil : (w.levelCode c []).flatMap f = (w.afterSplit c []).flatMap f := by
  cases w <;>
    simp [Writer.levelCode, storeTransaction, updateTransaction, Writer.afterSplit, Writer.before,
      Writer.settle, Writer.belowCode_nil, Writer.persist, find, remember, returned, flatMap_spaced f hgap,
      levelFields, levelEntity, levelName, dataVariable, slugVariable, earlier]

theorem flatMap_levelCode_cons (n : NestedRelation) (above : List NestedRelation) :
    (w.levelCode c (n :: above)).flatMap f =
      (w.split c (n :: above)).flatMap f ++ (w.afterSplit c (n :: above)).flatMap f := by
  cases w <;>
    simp [Writer.levelCode, storeLevel, updateLevel, Writer.split, Writer.more, Writer.afterSplit, Writer.before,
      Writer.settle, Writer.belowCode_cons, Writer.persist, find, returned, flatMap_spaced f hgap,
      levelFields, levelEntity, dataVariable, slugVariable, nestedVariable, earlier, Writer.record,
      Writer.parent]

end

theorem allSteps_levelCode_nil (w : Writer) (c : Configuration) :
    allSteps (w.levelCode c []) = allSteps (w.afterSplit c []) := by
  simp only [allSteps_eq_flatMap]
  exact flatMap_levelCode_nil steps (by rw [steps]) w c

theorem allSteps_levelCode_cons (w : Writer) (c : Configuration) (n : NestedRelation)
    (above : List NestedRelation) : allSteps (w.levelCode c (n :: above)) =
      allSteps (w.split c (n :: above)) ++ allSteps (w.afterSplit c (n :: above)) := by
  simp only [allSteps_eq_flatMap]
  exact flatMap_levelCode_cons steps (by rw [steps]) w c n above

/-! ## Where levels stand in bodies -/

/-- The code of a level holds that for each request nested in it. -/
theorem Writer.code_inside (w : Writer) (hn : n ∈ requests c branch) :
    Inside (w.code c (n :: branch)) (w.levelCode c branch) := by
  rw [Writer.code_cons]
  exact (inside_spaced (List.mem_map_of_mem hn)).trans (w.belowCode_inside c branch)

theorem Writer.levelCode_inside_body (w : Writer) (c : Configuration) :
    Inside (w.levelCode c []) (w.body c) := by
  cases w with
  | store =>
    refine Inside.trans ?_ (inside_spaced (List.mem_cons_of_mem _ List.mem_cons_self))
    exact inside_block _ _ _
  | update =>
    refine Inside.trans ?_ (inside_spaced (List.mem_cons_of_mem _ List.mem_cons_self))
    exact inside_block _ _ _

/-- The code of every nested request stands in the body of the method, and with it the code of its
level. -/
theorem Branch.inside (h : Branch c.nested branch) (w : Writer) : Inside (w.code c branch) (w.body c) := by
  induction h with
  | @root n hn =>
    have hrequest : n ∈ requests c [] := hn
    exact (w.code_inside hrequest).trans (w.levelCode_inside_body c)
  | deeper h hkind hchild ih =>
    exact ((w.code_inside hchild).trans (w.inside_code c hkind _)).trans ih

theorem IsLevel.inside (h : IsLevel c branch) (w : Writer) :
    Inside (w.levelCode c branch) (w.body c) := by
  cases h with
  | primary => exact w.levelCode_inside_body c
  | nested h hkind => exact (w.inside_code c hkind _).trans (h.inside w)

end Scaffold.Code
