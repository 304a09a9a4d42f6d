import Scaffold.Attachment.Fragments
import Scaffold.Code.Variables

/-!
# Generated `destroy` methods

The code that deletes a record. First the files of the record and of all nested records go,
then the row.
-/

namespace Scaffold.Code

mutual

/-- Deletes the files of a record and of the records nested below it. -/
def purgeTree (fields : List Field) (record path : String) (children : List NestedRelation) :
    List Stmt :=
  Attachment.purgeCode fields record ++ purgeNodes record path children

def purgeNodes (record path : String) : List NestedRelation → List Stmt
  | [] => []
  | ⟨_, r, fields, children⟩ :: rest =>
    let name := pathName path r.requestKey
    let accessor := s!"{record}->{r.name}"
    let item := s!"${name}Item"
    let here :=
      if r.kind == .belongsToMany || !holdsFiles fields children then []
      else if r.kind == .hasMany then
        [.braces s!"foreach ({accessor} as {item})" (purgeTree fields item name children)]
      else [.braces s!"if ({accessor})" (purgeTree fields accessor name children)]
    here ++ purgeNodes record path rest

end

/-- What happens inside the transaction of a `destroy` method. -/
def destroyTransaction (c : Configuration) : List Stmt :=
  let record := recordVariable c
  Stmt.spaced [purgeTree c.fields record "" c.nested, [.line s!"{record}->delete();"]]

/-- The body of the `destroy` method. -/
def destroyBody (c : Configuration) : List Stmt :=
  let record := recordVariable c
  [.block s!"DB::transaction(function () use ({record}) \x7b" (destroyTransaction c) "\x7d);"]

end Scaffold.Code
