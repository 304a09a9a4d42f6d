import Mathlib
import Scaffold.Nesting.Resolver

/-!
# The nodes of a tree of nested requests

What holds of a node because it holds of all nodes below, and what holds of every node of a tree.
-/

namespace Scaffold.NestedRelation

/-- Induction over trees: a property passes from the children of a node to the node. -/
theorem induction_children {P : NestedRelation → Prop}
    (h : ∀ n : NestedRelation, (∀ child ∈ n.children, P child) → P n) (n : NestedRelation) : P n :=
  h n fun child hchild ↦
    have : sizeOf child < sizeOf n := by
      have hlt := List.sizeOf_lt_of_mem hchild
      cases n
      simp only [mk.sizeOf_spec] at hlt ⊢
      omega
    induction_children h child
termination_by sizeOf n

/-- The nodes of a tree, at any depth. -/
inductive Within (roots : List NestedRelation) : NestedRelation → Prop where
  | root {n : NestedRelation} (hn : n ∈ roots) : Within roots n
  | deeper {n child : NestedRelation} (hn : Within roots n) (hchild : child ∈ n.children) :
      Within roots child

theorem Within.mono {roots roots' : List NestedRelation} {n : NestedRelation}
    (h : Within roots n) (hsub : roots ⊆ roots') : Within roots' n := by
  induction h with
  | root hn => exact .root (hsub hn)
  | deeper _ hchild ih => exact .deeper ih hchild

/-- What is below a node of a tree is in the tree. -/
theorem Within.trans {roots : List NestedRelation} {n child : NestedRelation}
    (hn : Within roots n) (h : Within n.children child) : Within roots child := by
  induction h with
  | root hchild => exact .deeper hn hchild
  | deeper _ hchild ih => exact .deeper ih hchild

theorem Within.of_children {roots : List NestedRelation} {n child : NestedRelation}
    (hn : n ∈ roots) (h : Within n.children child) : Within roots child :=
  (Within.root hn).trans h

theorem Within.of_child {n child m : NestedRelation} (hchild : child ∈ n.children)
    (h : Within [child] m) : Within [n] m :=
  .of_children (List.mem_singleton_self n) (h.mono (by simpa using hchild))

theorem within_iff {roots : List NestedRelation} {n : NestedRelation} :
    Within roots n ↔ ∃ root ∈ roots, n = root ∨ Within root.children n := by
  constructor
  · intro h
    induction h with
    | root hn => exact ⟨_, hn, .inl rfl⟩
    | deeper _ hchild ih =>
      obtain ⟨root, hroot, rfl | hwithin⟩ := ih
      · exact ⟨_, hroot, .inr (.root hchild)⟩
      · exact ⟨root, hroot, .inr (.deeper hwithin hchild)⟩
  · rintro ⟨root, hroot, rfl | hwithin⟩
    · exact .root hroot
    · exact hwithin.of_children hroot

mutual

/-- A node and all nodes below, parents first. -/
def preorder : NestedRelation → List NestedRelation
  | ⟨parent, relation, fields, children⟩ =>
    ⟨parent, relation, fields, children⟩ :: preorders children

def preorders : List NestedRelation → List NestedRelation
  | [] => []
  | n :: rest => preorder n ++ preorders rest

end

theorem mem_preorders {roots : List NestedRelation} {n : NestedRelation} :
    n ∈ preorders roots ↔ ∃ root ∈ roots, n ∈ preorder root := by
  induction roots with
  | nil => simp [preorders]
  | cons root rest ih => simp [preorders, ih]

theorem mem_preorder_iff (root : NestedRelation) {n : NestedRelation} :
    n ∈ preorder root ↔ n = root ∨ Within root.children n := by
  induction root using induction_children with
  | h root ih =>
    have heq : preorder root = root :: preorders root.children := by cases root; rfl
    rw [heq, List.mem_cons, mem_preorders, within_iff]
    exact or_congr_right (exists_congr fun child ↦ and_congr_right fun hchild ↦ ih child hchild)

theorem within_iff_mem_preorders {roots : List NestedRelation} {n : NestedRelation} :
    Within roots n ↔ n ∈ preorders roots := by
  rw [within_iff, mem_preorders]
  exact exists_congr fun root ↦ and_congr_right fun _ ↦ (mem_preorder_iff root).symm

instance decidableForallWithin (roots : List NestedRelation) (p : NestedRelation → Prop)
    [DecidablePred p] : Decidable (∀ n, Within roots n → p n) :=
  decidable_of_iff (∀ n ∈ preorders roots, p n)
    (forall_congr' fun _ ↦ imp_congr_left within_iff_mem_preorders.symm)

end Scaffold.NestedRelation
