import Scaffold.Code.Destroy

/-!
# Generated `update` methods

The code that updates a record and reconciles its nested records: a `hasOne` record is updated
or created, `hasMany` records are updated, created or, if the payload does not list them,
deleted together with their files.
-/

namespace Scaffold.Code

/-- Updates the record if it is there and creates it otherwise. -/
def persistCode (record accessor data : String) : Stmt :=
  .choice s!"if ({record}) \x7b" [.line s!"{record}->update({data});"]
    [.line s!"{record} = {accessor}()->create({data});"]

/-- Deletes the related records that were not kept, and first their files. -/
def staleCode (fields : List Field) (children : List NestedRelation) (accessor keep name : String) :
    List Stmt :=
  let stale := "$stale" ++ Name.studly name
  let query := s!"{accessor}()->whereNotIn('id', {keep})"
  (if holdsFiles fields children then
    [.braces s!"foreach ({query}->get() as {stale})"
      (purgeTree fields stale s!"stale_{name}" children)]
  else []) ++ [.line s!"{query}->delete();"]

mutual

/-- Reconciles the records of one nested request. -/
def updateNode (parent nested path : String) : NestedRelation → List Stmt
  | ⟨_, r, fields, children⟩ =>
    if r.kind == .belongsToMany then syncCode "Sync" parent nested r
    else
      let key := r.requestKey
      let name := pathName path key
      let isMany := r.kind == .hasMany
      let source := s!"{nested}['{key}']"
      let item := s!"${name}Item"
      let data := s!"${name}Data"
      let below := s!"${name}Nested"
      let record := s!"${name}Record"
      let slug := s!"${name}ImageName"
      let accessor := s!"{parent}->{r.name}"
      let keep := "$keep" ++ Name.studly name ++ "Ids"
      let payload := if isMany then item else source
      let find :=
        if isMany then s!"{record} = isset({item}['id']) ? {accessor}()->find({item}['id']) : null;"
        else s!"{record} = {accessor};"
      let body := Stmt.spaced
        [splitCode payload (payloadKeys children) below data ["id"] ++ [.line find] ++
            Attachment.captureCode fields (record ++ "?") name,
          Attachment.nameCode fields data slug (some (record ++ "?")) ++
            Attachment.uploadCode fields r.target data slug,
          persistCode record accessor data :: Attachment.releaseCode fields data name,
          if isMany then [.line s!"{keep}[] = {record}->id;"] else [],
          Stmt.spaced (updateNodes record below name children)]
      let comment := Stmt.line s!"// Sync {r.name}"
      if isMany then
        [comment,
          .braces s!"if (array_key_exists('{key}', {nested}))" <| Stmt.spaced
            [[.line s!"{keep} = [];"],
              [.braces s!"foreach ({source} ?? [] as {item})" body],
              staleCode fields children accessor keep name]]
      else [comment, .braces s!"if (!empty({source}))" body]

def updateNodes (parent nested path : String) : List NestedRelation → List (List Stmt)
  | [] => []
  | n :: rest => updateNode parent nested path n :: updateNodes parent nested path rest

end

/-- Reconciles all nested records of a record that is saved. -/
def updateRelations (nodes : List NestedRelation) (parent nested path : String) : List Stmt :=
  Stmt.spaced (updateNodes parent nested path nodes)

/-- What happens inside the transaction of an `update` method. -/
def updateTransaction (c : Configuration) : List Stmt :=
  let record := recordVariable c
  Stmt.spaced
    [Attachment.captureCode c.fields record "",
      Attachment.nameCode c.fields "$data" "$imageName" (some record) ++
        Attachment.uploadCode c.fields c.studly "$data" "$imageName",
      .line s!"{record}->update($data);" :: Attachment.releaseCode c.fields "$data" "",
      updateRelations c.nested record "$nested" "",
      [returnCode c]]

/-- The body of the `update` method. -/
def updateBody (c : Configuration) : List Stmt :=
  let record := recordVariable c
  let uses := if c.hasNested then s!"{record}, $data, $nested" else s!"{record}, $data"
  Stmt.spaced
    [primarySplit c,
      [.block s!"return DB::transaction(function () use ({uses}) \x7b" (updateTransaction c)
        "\x7d);"]]

end Scaffold.Code
