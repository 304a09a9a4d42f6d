import Mathlib
import Scaffold.Proofs.Code.Levels

/-!
# Fresh variables

The generated `store` and `update` methods keep the variables of nested levels apart from those
that the levels around them still read, as far as names allow it. The name of a level is the path
to it, so it has more letters than the names of the levels above, provided its own key has a letter
or a digit. The variable of the primary record comes from the name of an entity and is kept apart
only from the fixed variables: it is safe from a level if it could not be one of its variables
(`Reaches`).
-/

namespace Scaffold.Code

open Name Stmt

/-! ## Branches -/

/-- A way down a forest of nested requests; the last request stands first. -/
inductive Branch (roots : List NestedRelation) : List NestedRelation → Prop where
  | root {n : NestedRelation} (hn : n ∈ roots) : Branch roots [n]
  | deeper {n child : NestedRelation} {above : List NestedRelation}
      (h : Branch roots (n :: above)) (hkind : n.relation.kind ≠ .belongsToMany)
      (hchild : child ∈ n.children) : Branch roots (child :: n :: above)

/-- The name of the level that a branch leads to. -/
def levelName : List NestedRelation → String
  | [] => ""
  | n :: above => pathName (levelName above) n.relation.requestKey

/-- The code for the request that a branch leads to. -/
def Writer.code (w : Writer) (c : Configuration) : List NestedRelation → List Stmt
  | [] => []
  | [n] => w.node (recordVariable c) "$nested" "" n
  | n :: m :: above => w.below (levelName (m :: above)) n

theorem isVariable_recordVariable (c : Configuration) : IsVariable (recordVariable c) := by
  refine isVariable_of_isName ?_
  rw [recordName]
  split
  · exact (isName_camel _).append (by decide)
  · exact isName_camel _

variable {c : Configuration} {n : NestedRelation} {above : List NestedRelation} {v : String}

theorem ofLevel_of_mem_code {w : Writer} (hv : v ∈ allAssigns (w.code c (n :: above))) :
    OfLevel (levelName (n :: above)) v := by
  cases above with
  | nil => exact w.ofLevel_of_mem_node n (isVariable_recordVariable c) hv
  | cons m above =>
    exact w.ofLevel_of_mem_node n (w.parent.isVariable (isName_pathName _ _)) hv

theorem code_root_subset_body (w : Writer) (hn : n ∈ c.nested) :
    allAssigns (w.code c [n]) ⊆ allAssigns (w.body c) := by
  have hnodes : w.code c [n] ∈ c.nested.map (w.node (recordVariable c) "$nested" "") :=
    List.mem_map_of_mem hn
  intro v hv
  have hrelations := List.mem_flatMap_of_mem hnodes hv
  cases w
  · simp only [Writer.body, storeBody, storeTransaction, storeRelations, storeNodes_eq_map,
      allAssigns_spaced, List.flatMap_cons, allAssigns_singleton, assigns, List.mem_append]
    exact .inr (.inl (.inr (.inr (.inr (.inl hrelations)))))
  · simp only [Writer.body, updateBody, updateTransaction, updateRelations, updateNodes_eq_map,
      allAssigns_spaced, List.flatMap_cons, allAssigns_singleton, assigns, List.mem_append]
    exact .inr (.inl (.inr (.inr (.inr (.inr (.inl hrelations))))))

/-- The code for every nested request stands in the body of the method. -/
theorem Branch.code_subset_body {branch : List NestedRelation} (h : Branch c.nested branch)
    (w : Writer) : allAssigns (w.code c branch) ⊆ allAssigns (w.body c) := by
  induction h with
  | root hn => exact code_root_subset_body w hn
  | @deeper n child above h hkind hchild ih =>
    refine List.Subset.trans ?_ ih
    cases above <;> exact w.below_subset_node hkind hchild _ _ _

theorem letters_levelName_le {outer : List NestedRelation} (h : outer <:+ above) :
    letters (levelName outer) ≤ letters (levelName above) := by
  induction above with
  | nil => rw [List.suffix_nil.1 h]
  | cons m above ih =>
    rcases List.suffix_cons_iff.1 h with rfl | h
    · exact le_rfl
    · exact (ih h).trans (letters_le_pathName _ _)

theorem letters_levelName_lt {outer : List NestedRelation} (h : outer <:+ above)
    (hkey : letters n.relation.requestKey ≠ 0) :
    letters (levelName outer) < letters (levelName (n :: above)) := by
  rw [levelName, letters_pathName]
  exact (letters_levelName_le h).trans_lt (lt_add_of_pos_right _ (pos_iff_ne_zero.2 hkey))

/-- What the code of a nested request assigns is none of the fixed variables. It is not the primary
record either, unless the name of that could be one of the level; and it is no variable that a level
above has for one of its roles, unless the request key has neither letters nor digits. -/
theorem fresh_of_mem_code (w : Writer) (h : Branch c.nested (n :: above))
    (hv : v ∈ allAssigns (w.code c (n :: above))) :
    v ∈ allAssigns (w.body c) ∧ v ∉ ["$data", "$nested", "$imageName"] ∧
      (¬Reaches (levelName (n :: above)) (recordVariable c) → v ≠ recordVariable c) ∧
      (letters n.relation.requestKey ≠ 0 → ∀ outer, outer <:+ above →
        ∀ role : Role, v ≠ role.variableOf (levelName outer)) := by
  have hlevel := ofLevel_of_mem_code hv
  refine ⟨h.code_subset_body w hv, fun hfixed ↦ ?_, ?_, fun hkey outer houter role ↦ ?_⟩
  · exact not_reaches_of_mem hfixed _ hlevel.reaches
  · rintro hrecord rfl
    exact hrecord hlevel.reaches
  · exact hlevel.ne_variableOf (letters_levelName_lt houter hkey) role

/-- Chapters, nested in books. -/
def nestedChapters : NestedRelation := ⟨"Book", ⟨"chapters", .hasMany, "Chapter"⟩, [], []⟩

def nestedBooks : NestedRelation := ⟨"Author", ⟨"books", .hasMany, "Book"⟩, [], [nestedChapters]⟩

/-- An entity with books, which have chapters. -/
def withBooks (name : String) : Configuration :=
  ⟨name, name, [], [], [nestedBooks], .default, [], []⟩

theorem chapters_fresh :
    "$booksChaptersData" ∈ allAssigns (storeBody (withBooks "Author")) ∧
      "$booksChaptersData" ≠ recordVariable (withBooks "Author") ∧
      ∀ role : Role, "$booksChaptersData" ≠ role.variableOf "books" := by
  have hbranch : Branch (withBooks "Author").nested [nestedChapters, nestedBooks] :=
    .deeper (.root List.mem_cons_self) (by decide) List.mem_cons_self
  have hcode : "$booksChaptersData" ∈
      allAssigns (Writer.store.code (withBooks "Author") [nestedChapters, nestedBooks]) := by
    decide +kernel
  have hbooks : levelName [nestedBooks] = "books" := by decide +kernel
  obtain ⟨hbody, -, hrecord, habove⟩ := fresh_of_mem_code .store hbranch hcode
  exact ⟨hbody, hrecord (by decide +kernel),
    hbooks ▸ habove (by decide +kernel) [nestedBooks] (List.suffix_refl _)⟩

/-- A record can have the name of the items of its books. -/
example : recordVariable (withBooks "BooksItem") = Role.item.variableOf (levelName [nestedBooks]) := by
  decide +kernel

end Scaffold.Code
