import Scaffold.Relation.Basic

/-!
# The relations of an entity

The `relations` block of an entity maps kinds to targets. A target is `Target` or
`Target:alias`; several are listed or separated by commas, and a list item may itself hold
commas. `readAll` reads a block; of several relations of one name the last one counts, in the
place of the first.
-/

namespace Scaffold

open Text

/-- What a relations block gives for one kind. -/
inductive Targets where
  | none
  | line (text : String)
  | listed (lines : List String)
  deriving DecidableEq

namespace Targets

/-- The single entries, without blank ones. -/
def entries : Targets → List String
  | .none => []
  | .line text => items text
  | .listed lines => lines.flatMap items

end Targets

namespace Relation

/-- Reads `Target` or `Target:alias`; nothing if the target has no letter or digit. -/
def ofItem? (kind : RelationKind) (entry : String) : Option Relation :=
  let (before, after) := cutFirst ':' entry
  let target := Name.studly (strip before)
  let written := strip after
  if target == "" then none
  else some ⟨if written == "" then defaultName kind target else written, kind, target⟩

/-- What is said of a kind that is not known. -/
def unknownKind (owner kind : String) : String :=
  let subject := if owner == "" then "Entity" else owner
  s!"{subject}: unknown relation kind '{kind}' skipped."

/-- The relations that one line of a block adds. -/
def addEntries (kind : RelationKind) (relations : List Relation) (entries : List String) :
    List Relation :=
  (entries.filterMap (ofItem? kind)).foldl put relations

/-- Reads a block into its relations and the messages about unknown kinds. -/
def readAll (owner : String) (block : List (String × Targets)) : List Relation × List String :=
  block.foldl
    (fun (relations, messages) (written, targets) ↦
      match RelationKind.ofName? (RelationKind.normalize written) with
      | some kind => (addEntries kind relations targets.entries, messages)
      | none => (relations, messages ++ [unknownKind owner written]))
    ([], [])

end Relation

end Scaffold
