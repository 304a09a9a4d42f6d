import Mathlib
import Scaffold.Code.Crud
import Scaffold.Proofs.Code.Fresh
import Scaffold.Proofs.Text.Pieces

/-!
# Fragments on their own and in their place

A fragment of generated code can be printed on its own or as a part of the code that it stands in.
Printed on its own, it has to be indented at once as far as the blocks around it indent it one after
the other. Blank lines stay blank however often code is indented, so both ways lead to the same lines
(`Excerpt.cut_text`).
-/

namespace Scaffold

namespace Text

/-! ## Indented and joined lines -/

theorem isBlankText_spaces_append (width : Nat) (line : String) :
    isBlankText (spaces width ++ line) = isBlankText line := by
  have hspaces : (List.replicate width ' ').all isBlank = true := by
    rw [List.all_eq_true]
    intro c hc
    rw [List.eq_of_mem_replicate hc]
    rfl
  rw [isBlankText, String.toList_append, List.all_append, spaces, String.toList_ofList, hspaces,
    Bool.true_and, isBlankText]

/-- Indentation in two steps comes to one that is as wide as both. -/
theorem indentBy_indentBy (outer inner : Nat) (lines : List String) :
    indentBy outer (indentBy inner lines) = indentBy (outer + inner) lines := by
  have hspaces : spaces outer ++ spaces inner = spaces (outer + inner) :=
    String.toList_injective (by simp [spaces])
  rw [indentBy, indentBy, indentBy, List.map_map]
  apply List.map_congr_left
  intro line _
  by_cases h : isBlankText line = true
  · simp [h]
  · simp [h, isBlankText_spaces_append, ← hspaces, String.append_assoc]

theorem indentBy_zero (lines : List String) : indentBy 0 lines = lines := by
  have hspaces : spaces 0 = "" := rfl
  simp [indentBy, hspaces]

/-- A text that is joined from lines is cut where they are. -/
theorem cut_joinLines {lines : List String} (h : lines ≠ []) :
    cut '\n' (joinLines lines) = lines.flatMap (cut '\n') := by
  induction lines with
  | nil => exact absurd rfl h
  | cons line rest ih =>
    cases rest with
    | nil => simp [joinLines]
    | cons next more =>
      have hjoin : (joinLines (line :: next :: more)).toList =
          line.toList ++ '\n' :: (joinLines (next :: more)).toList := by
        simp [joinLines]
      rw [List.flatMap_cons, ← ih (List.cons_ne_nil _ _), cut, hjoin, splitOn_append_cons,
        List.map_append]
      rfl

end Text

namespace Stmt

variable {code part middle whole : List Stmt}

/-- The lines of `part` stand in `whole` one after the other, indented by `width` more spaces. -/
def Excerpt (width : Nat) (part whole : List Stmt) : Prop :=
  Text.indentBy width (allLines part) <:+: allLines whole

theorem Excerpt.trans {inner outer : Nat} (h : Excerpt inner part middle)
    (h' : Excerpt outer middle whole) : Excerpt (outer + inner) part whole := by
  have hmiddle : Text.indentBy outer (Text.indentBy inner (allLines part)) <:+:
      Text.indentBy outer (allLines middle) := h.map _
  rw [Text.indentBy_indentBy] at hmiddle
  exact hmiddle.trans h'

theorem excerpt_block (head : String) (body : List Stmt) (close : String) :
    Excerpt 4 body [block head body close] := by
  refine ⟨[head], [close], ?_⟩
  simp [allLines, lines]

theorem excerpt_of_infix (h : part <:+: whole) : Excerpt 0 part whole := by
  obtain ⟨before, after, heq⟩ := h
  rw [Excerpt, Text.indentBy_zero, ← heq, allLines_append, allLines_append]
  exact List.infix_append _ _ _

theorem infix_spaced {group : List Stmt} {groups : List (List Stmt)} (h : group ∈ groups) :
    group <:+: spaced groups := by
  by_cases hnil : group = []
  · rw [hnil]
    exact List.nil_infix
  · exact Text.infix_intercalate (List.mem_filter.2 ⟨h, by simpa using hnil⟩)

theorem excerpt_spaced {group : List Stmt} {groups : List (List Stmt)} (h : group ∈ groups) :
    Excerpt 0 group (spaced groups) := excerpt_of_infix (infix_spaced h)

/-- All code prints lines. -/
theorem allLines_ne_nil (h : code ≠ []) : allLines code ≠ [] := by
  cases code with
  | nil => exact absurd rfl h
  | cons s rest => cases s <;> simp [allLines, lines]

/-- Code that is printed on its own has the lines that it has in its place. -/
theorem Excerpt.cut_text {level : Nat} (steps : Nat) (h : Excerpt (steps * 4) part whole)
    (hne : part ≠ []) :
    Text.cut '\n' (text (level + steps) part) <:+: Text.cut '\n' (text level whole) := by
  have hlines : Text.indent (allLines part) (level + steps) <:+: Text.indent (allLines whole) level := by
    rw [Text.indent, add_mul, ← Text.indentBy_indentBy]
    exact h.map _
  have hpart : Text.indent (allLines part) (level + steps) ≠ [] := by
    simpa [Text.indent, Text.indentBy] using allLines_ne_nil hne
  have hwhole : Text.indent (allLines whole) level ≠ [] := fun hnil ↦ by
    rw [hnil, List.infix_nil] at hlines
    exact hpart hlines
  rw [text, text, Text.cut_joinLines hpart, Text.cut_joinLines hwhole]
  obtain ⟨before, after, heq⟩ := hlines
  rw [← heq, List.flatMap_append, List.flatMap_append]
  exact List.infix_append _ _ _

end Stmt

namespace Code

open Stmt

/-! ## Code for nested requests -/

theorem Writer.node_ne_nil (w : Writer) (parent nested path : String) (n : NestedRelation) :
    w.node parent nested path n ≠ [] := by
  cases n
  cases w with
  | store =>
    rw [node, storeNode]
    split <;> simp [syncCode]
  | update =>
    rw [node, updateNode]
    split
    · simp [syncCode]
    · simp only
      split <;> simp

theorem spaced_map_node_ne_nil (w : Writer) {nodes : List NestedRelation} (h : nodes ≠ [])
    (parent nested path : String) : spaced (nodes.map (w.node parent nested path)) ≠ [] := by
  obtain ⟨n, hn⟩ := List.exists_mem_of_ne_nil nodes h
  intro hnil
  have hinfix := infix_spaced (List.mem_map_of_mem (f := w.node parent nested path) hn)
  rw [hnil, List.infix_nil] at hinfix
  exact w.node_ne_nil parent nested path n hinfix

/-- What stands in the body of a transaction, stands one step further in in the method. -/
theorem excerpt_method {part transaction : List Stmt} (h : Excerpt 0 part transaction)
    (before : List Stmt) (head close : String) :
    Excerpt 4 part (spaced [before, [block head transaction close]]) :=
  (h.trans (excerpt_block head transaction close)).trans (excerpt_spaced (by simp))

theorem excerpt_storeRelations (c : Configuration) :
    Excerpt 4 (storeRelations c.nested (recordVariable c) "$nested" "") (storeBody c) :=
  excerpt_method (excerpt_spaced (by simp)) _ _ _

theorem excerpt_updateRelations (c : Configuration) :
    Excerpt 4 (updateRelations c.nested (recordVariable c) "$nested" "") (updateBody c) :=
  excerpt_method (excerpt_spaced (by simp)) _ _ _

/-- The fragments with the code for nested requests have the lines which that code has in the bodies. -/
theorem relations_in_bodies (c : Configuration) (related : List String) (h : c.hasNested = true) :
    ∀ names ∈ [("relationStore", "storeBody"), ("relationUpdate", "updateBody")],
      ∃ part whole, (crud c related).lookup names.1 = some part ∧
        (crud c related).lookup names.2 = some whole ∧ Text.cut '\n' part <:+: Text.cut '\n' whole := by
  have hne : c.nested ≠ [] := by
    intro hnil
    simp [Configuration.hasNested, hnil] at h
  have hstore : storeRelations c.nested (recordVariable c) "$nested" "" ≠ [] := by
    rw [storeRelations, storeNodes_eq_map]
    exact spaced_map_node_ne_nil .store hne _ _ _
  have hupdate : updateRelations c.nested (recordVariable c) "$nested" "" ≠ [] := by
    rw [updateRelations, updateNodes_eq_map]
    exact spaced_map_node_ne_nil .update hne _ _ _
  simp only [List.forall_mem_cons, List.not_mem_nil, false_imp_iff, implies_true, and_true]
  constructor
  · exact ⟨_, _, rfl, rfl, (excerpt_storeRelations c).cut_text 1 hstore⟩
  · exact ⟨_, _, rfl, rfl, (excerpt_updateRelations c).cut_text 1 hupdate⟩

theorem relations_in_books :
    (withBooks "Author").hasNested = true ∧
      ∀ names ∈ [("relationStore", "storeBody"), ("relationUpdate", "updateBody")],
        ∃ part whole, (crud (withBooks "Author") ["Book", "Chapter"]).lookup names.1 = some part ∧
          (crud (withBooks "Author") ["Book", "Chapter"]).lookup names.2 = some whole ∧
            Text.cut '\n' part <:+: Text.cut '\n' whole :=
  ⟨rfl, relations_in_bodies (withBooks "Author") ["Book", "Chapter"] rfl⟩

end Code

end Scaffold
