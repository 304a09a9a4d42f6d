import Scaffold.Yaml.Tag

/-!
# YAML nodes

A YAML document as a tree whose aliases have been followed and whose merge keys have been carried
out (`Node.ofEntries`). `Node.read` gives the value of a tree. A tree is read level by level, so of
several faults the one on the highest level counts, and on one level the first (`Misread`).
-/

namespace Scaffold.Yaml

/-- A part of a document and the line where it starts. -/
inductive Node where
  | scalar (line : Nat) (tag : Tag) (text : String)
  | sequence (line : Nat) (tag : Tag) (items : List Node)
  /-- A mapping; `merge` tells why its merge keys could not be carried out. -/
  | mapping (line : Nat) (tag : Tag) (merge : Option YamlFault) (entries : List (Node × Node))
  /-- A mention of a collection inside of it. -/
  | loop (line : Nat)

namespace Node

/-- The node that stands where a text says nothing. -/
def empty (line : Nat) : Node := scalar line .null ""

/-! ## Merge keys -/

def isMerge : Node → Bool
  | scalar _ .merge _ => true
  | _ => false

/-- A node as a key: an equals sign is a text there. -/
def asKey : Node → Node
  | scalar line .equals text => scalar line .text text
  | n => n

/-- The entries of a mapping that is merged into another one. -/
def mergedEntries : Node → Except YamlFault (List (Node × Node))
  | mapping _ _ none entries => .ok entries
  | mapping _ _ (some fault) _ => .error fault
  | loop _ => .error .tooDeep
  | scalar .. | sequence .. => .error .badMerge

/-- The entries that the value of a merge key stands for: those of a mapping, or those of several
mappings, the last one first. -/
def merged : Node → Except YamlFault (List (Node × Node))
  | sequence _ _ items => (items.mapM mergedEntries).map fun parts ↦ parts.reverse.flatten
  | n => n.mergedEntries

/-- The mapping of a list of entries. What its merge keys stand for comes first, so that its own
entries prevail. -/
def ofEntries (line : Nat) (tag : Tag) (entries : List (Node × Node)) : Node :=
  let (merges, own) := entries.partition (·.1.isMerge)
  let own := own.map fun e ↦ (e.1.asKey, e.2)
  match merges.mapM fun e ↦ e.2.merged with
  | .ok parts => mapping line tag none (parts.flatten ++ own)
  | .error fault => mapping line tag (some fault) own

end Node

/-! ## Reading -/

/-- A fault and the level of the tree on which it was met. -/
structure Misread where
  level : Nat
  error : YamlError
  deriving DecidableEq

namespace Misread

/-- The fault that is met first when `f` stands behind `e`. -/
def first (e f : Misread) : Misread := if f.level < e.level then f else e

/-- Both results, or the fault that is met first. -/
def both {α β : Type} (a : Except Misread α) (b : Except Misread β) : Except Misread (α × β) :=
  match a, b with
  | .ok x, .ok y => .ok (x, y)
  | .ok _, .error e | .error e, .ok _ => .error e
  | .error e, .error f => .error (e.first f)

theorem first_level (e f : Misread) : (e.first f).level = min e.level f.level := by
  unfold first
  split <;> omega

end Misread

namespace Node

def line : Node → Nat
  | scalar line .. | sequence line .. | mapping line .. | loop line => line

/-- Can the node be a key? -/
def isCollection : Node → Bool
  | scalar .. => false
  | sequence .. | mapping .. | loop _ => true

/-- Stops at a node. -/
def fail {α : Type} (n : Node) (level : Nat) (fault : YamlFault) : Except Misread α :=
  .error ⟨level, fault, n.line⟩

mutual

/-- The value of a node on a level of a tree. -/
def read (level : Nat) (n : Node) : Except Misread Value :=
  match n with
  | scalar line tag text => (tag.read text).mapError fun fault ↦ ⟨level, fault, line⟩
  | sequence _ .list items => (readItems (level + 1) items).map .list
  | mapping _ .map none entries =>
    (readEntries (level + 1) entries).map fun entries ↦ .map (Value.ofEntries entries)
  | mapping line .map (some fault) _ => .error ⟨level + 1, fault, line⟩
  | sequence line .. | mapping line .. => .error ⟨level, .noMeaning, line⟩
  | loop line => .error ⟨level, .tooDeep, line⟩

def readItems (level : Nat) : List Node → Except Misread (List Value)
  | [] => .ok []
  | n :: rest => (Misread.both (read level n) (readItems level rest)).map fun (v, vs) ↦ v :: vs

def readEntries (level : Nat) : List (Node × Node) → Except Misread (List (Value × Value))
  | [] => .ok []
  | (key, n) :: rest =>
    let key := if key.isCollection then key.fail level .collectionKey else read level key
    let entry := Misread.both key (read level n)
    (Misread.both entry (readEntries level rest)).map fun (e, es) ↦ e :: es

end

end Node

end Scaffold.Yaml
