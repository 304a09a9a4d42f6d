import Scaffold.Entity.Basic

/-!
# Schemas

A schema is a list of entities under pairwise different keys, in the order of the file. The
entries of a raw mapping become a schema by `ofEntries`, which stops at the first entry that
is no entity.
-/

namespace Scaffold

/-- Entities under their keys, in file order. -/
abbrev Schema := List (String × Entity)

/-- Why an entry cannot be taken as an entity. -/
inductive EntityError where
  /-- The entry is a mapping of the wrong shape. -/
  | misshapen (problems : List Shape.Problem)
  /-- The entry lists something that is no pair: its position and its length. -/
  | notPair (position length : Nat)
  /-- The entry can be taken for a mapping in no way. -/
  | notEntries
  deriving DecidableEq

/-- What is said of a list that is not one of pairs. -/
def EntityError.message : EntityError → String
  | .misshapen _ => "The entry has the wrong shape."
  | .notPair position length =>
    s!"dictionary update sequence element #{position} has length {length}; 2 is required"
  | .notEntries => "The entry is not a mapping."

/-- Why a key of a raw schema has no text. -/
inductive KeyError where
  /-- An integer with too many digits. -/
  | oversize
  deriving DecidableEq

def KeyError.message : KeyError → String
  | .oversize => Text.oversizeInteger none

namespace Schema

/-- The parts of a value that can be taken apart. -/
def parts? : Value → Option (List Value)
  | .text s => some (s.toList.map fun c ↦ .text (String.singleton c))
  | .list items => some items
  | .map entries => some (entries.map Prod.fst)
  | _ => none

/-- Lists and mappings cannot be keys. -/
def canBeKey : Value → Bool
  | .list _ | .map _ => false
  | _ => true

/-- Reads values from position `i` on as pairs of a key and a value. -/
def pairsFrom : Nat → List Value → Except EntityError (List (Value × Value))
  | _, [] => .ok []
  | i, v :: rest =>
    match parts? v with
    | none => .error .notEntries
    | some [k, x] =>
      if canBeKey k then (pairsFrom (i + 1) rest).map ((k, x) :: ·) else .error .notEntries
    | some parts => .error (.notPair i parts.length)

/-- Takes an entry for a mapping: an empty one of any type counts as no entries, a list of
pairs counts as its entries. -/
def entriesOf (v : Value) : Except EntityError (List (Value × Value)) :=
  if v.isFalsy then .ok []
  else
    match v with
    | .map entries => .ok entries
    | v =>
      match parts? v with
      | some parts => (pairsFrom 0 parts).map Value.ofEntries
      | none => .error .notEntries

/-- Reads one entry. -/
def readEntity (v : Value) : Except EntityError Entity := do
  let entries ← entriesOf v
  (Entity.ofEntries entries).mapError .misshapen

/-- Reads the entries of a raw schema. Keys are taken as text; of two that give the same text
the later entity stays, in the place of the earlier. -/
def ofEntries (raw : List (Value × Value)) : Except EntityError Schema := do
  let entities ← raw.mapM fun (name, v) ↦ return (name.plain, ← readEntity v)
  return Entries.ofList entities

end Schema

end Scaffold
