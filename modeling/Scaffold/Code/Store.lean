import Scaffold.Attachment.Fragments
import Scaffold.Code.Variables

/-!
# Generated `store` methods

The code that creates a record with its nested records. Every level splits its nested payloads
off, stores its files, creates its row and then goes on to the levels below.
-/

namespace Scaffold.Code

mutual

/-- Creates the records of one nested request. -/
def storeNode (parent nested path : String) : NestedRelation → List Stmt
  | ⟨_, r, fields, children⟩ =>
    if r.kind == .belongsToMany then syncCode "Attach" parent nested r
    else
      let name := pathName path r.requestKey
      let isMany := r.kind == .hasMany
      let source := s!"{nested}['{r.requestKey}']"
      let item := s!"${name}Item"
      let data := s!"${name}Data"
      let below := s!"${name}Nested"
      let created := "$created" ++ Name.studly name
      let slug := s!"${name}ImageName"
      let payload := if isMany then item else source
      let body := Stmt.spaced
        [splitCode payload (payloadKeys children) below data [],
          Attachment.nameCode fields data slug none ++
            Attachment.uploadCode fields r.target data slug,
          [.line s!"{created} = {parent}->{r.name}()->create({data});"],
          Stmt.spaced (storeNodes created below name children)]
      let head :=
        if isMany then s!"foreach ({source} ?? [] as {item})" else s!"if (!empty({source}))"
      [.line s!"// Create {r.name}", .braces head body]

def storeNodes (parent nested path : String) : List NestedRelation → List (List Stmt)
  | [] => []
  | n :: rest => storeNode parent nested path n :: storeNodes parent nested path rest

end

/-- Creates all nested records of a record that exists. -/
def storeRelations (nodes : List NestedRelation) (parent nested path : String) : List Stmt :=
  Stmt.spaced (storeNodes parent nested path nodes)

/-- What happens inside the transaction of a `store` method. -/
def storeTransaction (c : Configuration) : List Stmt :=
  let record := recordVariable c
  Stmt.spaced
    [Attachment.nameCode c.fields "$data" "$imageName" none ++
        Attachment.uploadCode c.fields c.studly "$data" "$imageName",
      [.line s!"{record} = {c.studly}::create($data);"],
      storeRelations c.nested record "$nested" "",
      [returnCode c]]

/-- The body of the `store` method. -/
def storeBody (c : Configuration) : List Stmt :=
  let uses := if c.hasNested then "$data, $nested" else "$data"
  Stmt.spaced
    [primarySplit c,
      [.block s!"return DB::transaction(function () use ({uses}) \x7b" (storeTransaction c)
        "\x7d);"]]

end Scaffold.Code
