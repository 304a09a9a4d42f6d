import Scaffold.Text.Pieces

/-!
# Paths

Paths with forward slashes, kept without empty and `.` components; `..` is kept as written. A
path that starts with exactly two slashes keeps them, more count as one.
-/

namespace Scaffold

/-- A path. -/
structure Path where
  /-- How many slashes it starts with: none for a relative path, one or two otherwise. -/
  slashes : Nat
  parts : List String
  deriving DecidableEq

namespace Path

/-- The path of the working directory. -/
def here : Path := ⟨0, []⟩

def ofString (s : String) : Path :=
  let leading := (s.toList.takeWhile (· == '/')).length
  ⟨if leading ≤ 2 then leading else 1, (Text.cut '/' s).filter fun part ↦ part != "" && part != "."⟩

def isAbsolute (p : Path) : Bool := p.slashes != 0

/-- The path as text; the path of the working directory is a point. -/
def toString (p : Path) : String :=
  if p.slashes == 0 && p.parts.isEmpty then "."
  else String.ofList (List.replicate p.slashes '/') ++ "/".intercalate p.parts

/-- The path `q` as seen from `p`. -/
def join (p q : Path) : Path := if q.slashes == 0 then ⟨p.slashes, p.parts ++ q.parts⟩ else q

instance : Append Path := ⟨join⟩

/-- The entry `name` of a directory. -/
def child (p : Path) (name : String) : Path := ⟨p.slashes, p.parts ++ [name]⟩

/-- The last component. -/
def name (p : Path) : String := p.parts.getLast?.getD ""

/-- The path without its last component. -/
def parent (p : Path) : Path := ⟨p.slashes, p.parts.dropLast⟩

/-- The path as seen from `base`, if it lies below it. -/
def relativeTo? (p base : Path) : Option Path :=
  if p.slashes == base.slashes && base.parts.isPrefixOf p.parts then
    some ⟨0, p.parts.drop base.parts.length⟩
  else none

/-- The order of paths by their components. -/
def le (p q : Path) : Bool :=
  p.slashes < q.slashes ||
    (p.slashes == q.slashes && !List.lex q.parts p.parts fun a b ↦ a.toList < b.toList)

theorem relativeTo?_append {p q : Path} (h : q.slashes = 0) :
    (p ++ q).relativeTo? p = some q := by
  obtain ⟨qs, qp⟩ := q
  subst h
  change (join p ⟨0, qp⟩).relativeTo? p = some ⟨0, qp⟩
  simp [join, relativeTo?]

end Path

end Scaffold
