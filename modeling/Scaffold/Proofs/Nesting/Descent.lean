import Mathlib
import Scaffold.Proofs.Name.Studly
import Scaffold.Proofs.Nesting.Requests

/-!
# How deep nested requests lead

Following nested requests is a guarded walk: a step goes to an entity whose name is not among
those met so far (`Schema.Descends`). The names met are studly, but the guard looks at the
target as the relation spells it, and the studly case of a target may differ from the target. A
step to such a target slips through the guard (`Schema.Slips`). All walks end exactly if no entity
is reached from itself by such steps alone; without any of them no walk meets an entity twice.
-/

open Relation (TransGen ReflTransGen)

namespace Scaffold

namespace Schema

variable {schema : Schema}

/-- A request of `a` leads to the entity `b` past the guard, because the target is spelled
differently. -/
def Slips (schema : Schema) (a b : String) : Prop :=
  ∃ r ∈ schema.requests a, r.kind ≠ .belongsToMany ∧ schema.has r.target ∧
    Name.studly r.target ≠ r.target ∧ b = Name.studly r.target

/-- From `name` a guarded walk of `n` steps starts, if the names in `visited` were met before;
on its way more names may be met. -/
inductive Descends (schema : Schema) : ℕ → String → List String → Prop where
  | stay (name : String) (visited : List String) : Descends schema 0 name visited
  | step {n : ℕ} {name : String} {visited met : List String} {r : Relation}
      (hr : r ∈ schema.requests (Name.studly name)) (hkind : r.kind ≠ .belongsToMany)
      (hhas : schema.has r.target) (hmet : Name.studly name :: visited ⊆ met)
      (hnew : r.target ∉ met) (hrest : Descends schema n r.target met) :
      Descends schema (n + 1) name visited

/-- What was met before only stops walks. -/
theorem Descends.anti {n : ℕ} {name : String} {visited visited' : List String}
    (h : Descends schema n name visited) (hsub : visited' ⊆ visited) :
    Descends schema n name visited' := by
  cases h with
  | stay => exact .stay _ _
  | step hr hkind hhas hmet hnew hrest =>
    exact .step hr hkind hhas (fun x hx ↦ hmet (List.cons_subset_cons _ hsub hx)) hnew hrest

/-! ## Measures -/

/-- A measure that falls along every step. -/
def Falls (schema : Schema) (need : List String → String → ℕ) : Prop :=
  ∀ (name : String) (visited met : List String), ∀ r ∈ schema.requests (Name.studly name),
    r.kind ≠ .belongsToMany → schema.has r.target → Name.studly name :: visited ⊆ met →
      r.target ∉ met → need met r.target < need visited name

theorem Falls.le_of_descends {need : List String → String → ℕ} (h : schema.Falls need) {n : ℕ}
    {name : String} {visited : List String} (hwalk : Descends schema n name visited) :
    n ≤ need visited name := by
  induction hwalk with
  | stay => exact Nat.zero_le _
  | step hr hkind hhas hmet hnew _ ih =>
    exact Nat.succ_le_of_lt (ih.trans_lt (h _ _ _ _ hr hkind hhas hmet hnew))

/-- The studly names of the entities. -/
def defined (schema : Schema) : Finset String := (schema.map fun e ↦ Name.studly e.1).toFinset

theorem studly_mem_defined {name : String} :
    Name.studly name ∈ schema.defined ↔ schema.has name := by
  simp [defined, has_iff]

theorem card_defined_le (schema : Schema) : schema.defined.card ≤ schema.length := by
  simpa [defined] using List.toFinset_card_le (schema.map fun e ↦ Name.studly e.1)

/-- The number of entities that are not met yet. -/
def unmet (schema : Schema) (met : List String) : ℕ := (schema.defined \ met.toFinset).card

theorem unmet_le (schema : Schema) (met : List String) : schema.unmet met ≤ schema.defined.card :=
  Finset.card_le_card Finset.sdiff_subset

theorem unmet_le_of_subset {met met' : List String} (h : met ⊆ met') :
    schema.unmet met' ≤ schema.unmet met := by
  refine Finset.card_le_card fun x hx ↦ ?_
  rw [Finset.mem_sdiff, List.mem_toFinset] at hx ⊢
  exact ⟨hx.1, fun hmem ↦ hx.2 (h hmem)⟩

theorem unmet_lt {met met' : List String} {name : String} (hname : name ∈ schema.defined)
    (hnew : name ∉ met) (h : met ⊆ met') : schema.unmet (name :: met') < schema.unmet met := by
  refine Finset.card_lt_card ((Finset.ssubset_iff_of_subset fun x hx ↦ ?_).2 ⟨name, ?_, ?_⟩)
  · rw [Finset.mem_sdiff, List.mem_toFinset] at hx ⊢
    exact ⟨hx.1, fun hmem ↦ hx.2 (List.mem_cons_of_mem _ (h hmem))⟩
  · simp [hname, hnew]
  · simp

open Classical in
/-- The number of entities that can be reached by steps past the guard alone. -/
noncomputable def rank (schema : Schema) (a : String) : ℕ :=
  {b ∈ schema.defined | TransGen schema.Slips a b}.card

theorem rank_le (schema : Schema) (a : String) : schema.rank a ≤ schema.defined.card := by
  classical exact Finset.card_filter_le _ _

theorem rank_lt {a b : String} (hslip : schema.Slips a b) (hloop : ¬TransGen schema.Slips b b) :
    schema.rank b < schema.rank a := by
  classical
  refine Finset.card_lt_card ((Finset.ssubset_iff_of_subset fun c hc ↦ ?_).2 ⟨b, ?_, ?_⟩)
  · rw [Finset.mem_filter] at hc ⊢
    exact ⟨hc.1, .head hslip hc.2⟩
  · rw [Finset.mem_filter]
    refine ⟨?_, .single hslip⟩
    obtain ⟨r, -, -, hhas, -, rfl⟩ := hslip
    exact studly_mem_defined.2 hhas
  · simp [hloop]

/-- A step under the spelling of an entity meets that entity for the first time. -/
theorem unmet_lt_of_step {name target : String} {visited met : List String}
    (hhas : schema.has target) (hspelled : Name.studly target = target)
    (hmet : Name.studly name :: visited ⊆ met) (hnew : target ∉ met) :
    schema.unmet (Name.studly target :: met) < schema.unmet (Name.studly name :: visited) := by
  rw [hspelled]
  refine unmet_lt ?_ (fun h ↦ hnew (hmet h)) hmet
  rw [← hspelled]
  exact studly_mem_defined.2 hhas

/-- If no step slips past the guard, every step meets a new entity. -/
theorem falls_unmet (h : ∀ a b, ¬schema.Slips a b) :
    schema.Falls fun visited name ↦ schema.unmet (Name.studly name :: visited) := by
  intro name visited met r hr hkind hhas hmet hnew
  have hspelled : Name.studly r.target = r.target := by
    by_contra hne
    exact h _ _ ⟨r, hr, hkind, hhas, hne, rfl⟩
  exact unmet_lt_of_step hhas hspelled hmet hnew

/-- If no entity is reached from itself past the guard, a step meets a new entity or comes closer
to the end of a row of steps that slip. -/
theorem falls_rank (h : ∀ a, ¬TransGen schema.Slips a a) :
    schema.Falls fun visited name ↦
      schema.unmet (Name.studly name :: visited) * (schema.defined.card + 1) +
        schema.rank (Name.studly name) := by
  intro name visited met r hr hkind hhas hmet hnew
  dsimp only
  by_cases hspelled : Name.studly r.target = r.target
  · have hunmet := unmet_lt_of_step hhas hspelled hmet hnew
    have hrank := schema.rank_le (Name.studly r.target)
    nlinarith
  · have hrank := rank_lt ⟨r, hr, hkind, hhas, hspelled, rfl⟩ (h (Name.studly r.target))
    have hunmet : schema.unmet (Name.studly r.target :: met) ≤
        schema.unmet (Name.studly name :: visited) :=
      unmet_le_of_subset fun x hx ↦ List.mem_cons_of_mem _ (hmet hx)
    nlinarith

/-! ## Loops -/

/-- All names are their own studly case. -/
def Stable (names : List String) : Prop := ∀ v ∈ names, Name.studly v = v

theorem Stable.cons {names : List String} {target : String} (h : Stable names) {r : Relation}
    (hr : r.Spelled) (htarget : target = Name.studly r.target) : Stable (target :: names) := by
  intro v hv
  rcases List.mem_cons.1 hv with rfl | hv
  · obtain ⟨written, hwritten⟩ := hr
    rw [htarget, hwritten, Name.studly_studly_studly]
  · exact h v hv

/-- From an entity that is reached from itself past the guard walks never have to end. -/
theorem descends_of_loop (n : ℕ) {a name : String} {visited : List String}
    (hloop : TransGen schema.Slips a a) (hname : Name.studly name = a)
    (hstable : Stable (Name.studly name :: visited)) : Descends schema n name visited := by
  induction n generalizing a name visited with
  | zero => exact .stay _ _
  | succ n ih =>
    obtain ⟨b, hab, hba⟩ := TransGen.head'_iff.1 hloop
    have hb : TransGen schema.Slips b b := TransGen.tail' hba hab
    obtain ⟨r, hr, hkind, hhas, hne, rfl⟩ := hab
    have hspelled := spelled_of_mem_requests hr
    rw [← hname] at hr
    refine .step hr hkind hhas (List.Subset.refl _) (fun hmem ↦ hne (hstable _ hmem)) ?_
    exact ih hb rfl (hstable.cons hspelled rfl)

/-- Under a target that is not defined there are no requests. -/
theorem requests_eq_nil {r : Relation} (hr : r.Spelled) (hhas : ¬schema.has r.target) :
    schema.requests (Name.studly r.target) = [] := by
  obtain ⟨written, hwritten⟩ := hr
  have hnone : schema.find? (Name.studly (Name.studly r.target)) = none := by
    by_contra hsome
    refine hhas (has_iff.2 ?_)
    obtain ⟨e, he⟩ := Option.ne_none_iff_exists'.1 hsome
    obtain ⟨key, hmem, hkey⟩ := exists_of_find? he
    refine ⟨(key, e), hmem, ?_⟩
    rw [hkey, hwritten, Name.studly_studly_studly, Name.studly_studly_studly]
  rw [requests, hnone]

end Schema

/-! ## Runs -/

/-- The fields of all entities can be parsed. -/
def Schema.Parsed (schema : Schema) : Prop :=
  ∀ e ∈ schema, ∃ fields, Field.parseAll e.2.fields = .ok fields

theorem Schema.Parsed.exists_fields {schema : Schema} (h : schema.Parsed) (name : String) :
    ∃ fields, Field.parseAll (schema.definitionsOf name) = .ok fields := by
  rw [definitionsOf]
  rcases he : schema.find? (Name.studly name) with - | e
  · exact ⟨[], rfl⟩
  · obtain ⟨key, hmem, -⟩ := exists_of_find? he
    exact h _ hmem

namespace Resolve

variable {schema : Schema} {m : Memory}

theorem ends_fields_of_parsed (hparsed : schema.Parsed) (name : String) (h : m.Sound schema) :
    Ends (fields schema name) m (fun _ t ↦ t.Sound schema) fun _ _ ↦ False := by
  obtain ⟨found, hfound⟩ := hparsed.exists_fields name
  exact (ends_fields h hfound).mono (fun _ _ ht ↦ ht.2) fun _ _ ↦ id

/-- The node of a tree for a relation of the entity `name`. -/
def node (schema : Schema) (depth : ℕ) (name : String) (visited : List String) (r : Relation) :
    Resolve NestedRelation := do
  let studly := Name.studly name
  let path := studly :: visited
  if r.kind == .belongsToMany then return ⟨studly, r, [], []⟩
  if !schema.has r.target then
    warn <| s!"{studly}: nested relation '{r.name}' targets '{r.target}', " ++
      "which is not defined in the schema."
    return ⟨studly, r, [], []⟩
  let found ← fields schema r.target
  if path.contains r.target then return ⟨studly, r, found, []⟩
  return ⟨studly, r, found, ← treeTo schema depth r.target path⟩

theorem treeTo_succ (schema : Schema) (depth : ℕ) (name : String) (visited : List String) :
    treeTo schema (depth + 1) name visited =
      nested schema (Name.studly name) >>= fun rs ↦ rs.mapM (node schema depth name visited) := rfl

/-- A request that leads on: its target is defined and was not met. -/
def LeadsOn (schema : Schema) (met : List String) (r : Relation) : Prop :=
  r.kind ≠ .belongsToMany ∧ schema.has r.target ∧ r.target ∉ met

/-- A node fails only if the tree below it does. -/
theorem ends_node (hparsed : schema.Parsed) {depth : ℕ} {name : String} {visited : List String}
    (htree : ∀ (target : String) (path : List String) (m : Memory), m.Sound schema →
      Ends (treeTo schema depth target path) m
        (fun _ t ↦ ¬schema.Descends depth target path ∧ t.Sound schema)
        fun e _ ↦ e = .endless ∧ schema.Descends depth target path)
    {r : Relation} (hr : r ∈ schema.requests (Name.studly name)) (h : m.Sound schema) :
    Ends (node schema depth name visited r) m
      (fun n t ↦ (r = n.relation ∧ (LeadsOn schema (Name.studly name :: visited) r →
        ¬schema.Descends depth r.target (Name.studly name :: visited))) ∧ t.Sound schema)
      fun e _ ↦ e = .endless ∧ schema.Descends (depth + 1) name visited := by
  rw [node]
  by_cases hkind : r.kind = .belongsToMany
  · simp [hkind, LeadsOn, h]
  by_cases hhas : schema.has r.target
  · simp only [hkind, hhas, beq_iff_eq, if_false, Bool.not_true, Bool.false_eq_true, ends_bind]
    refine (ends_fields_of_parsed hparsed r.target h).mono (fun found t ht ↦ ?_)
      fun _ _ ↦ False.elim
    by_cases hmet : r.target ∈ Name.studly name :: visited
    · simp [LeadsOn, hmet, ht]
    · simp only [List.contains_eq_mem, hmet, decide_false, Bool.false_eq_true, if_false, ends_bind]
      refine (htree r.target _ t ht).mono ?_ ?_
      · rintro ns u ⟨hends, hu⟩
        rw [ends_pure]
        exact ⟨⟨rfl, fun _ ↦ hends⟩, hu⟩
      · rintro e u ⟨he, hwalk⟩
        exact ⟨he, .step hr hkind hhas (List.Subset.refl _) hmet hwalk⟩
  · simp only [hkind, hhas, beq_iff_eq, if_false, Bool.not_false, if_true, ends_bind]
    refine (ends_warn _ h).mono (fun _ t ht ↦ ?_) fun _ _ ↦ False.elim
    rw [ends_pure]
    exact ⟨⟨rfl, fun hon ↦ (hhas hon.2.1).elim⟩, ht⟩

/-- A tree is built down to a depth exactly if no guarded walk is as long; its roots are the
requests of the entity. -/
theorem ends_treeTo (hparsed : schema.Parsed) (depth : ℕ) (name : String)
    (visited : List String) (h : m.Sound schema) :
    Ends (treeTo schema depth name visited) m
      (fun ns t ↦ ns.map (·.relation) = schema.requests (Name.studly name) ∧
        ¬schema.Descends depth name visited ∧ t.Sound schema)
      fun e _ ↦ e = .endless ∧ schema.Descends depth name visited := by
  induction depth generalizing name visited m with
  | zero =>
    rw [treeTo, ends_throw]
    exact ⟨rfl, .stay _ _⟩
  | succ depth ih =>
    rw [treeTo_succ, ends_bind]
    refine (ends_nested _ h).mono ?_ fun _ _ ↦ False.elim
    rintro rs t ⟨rfl, ht⟩
    have htree (target : String) (path : List String) (m : Memory) (h : m.Sound schema) :=
      (ih target path h).mono (fun _ _ hgood ↦ hgood.2) fun _ _ ↦ id
    refine (Ends.mapM ht fun r hr t ht ↦ ends_node hparsed htree hr ht).mono ?_ fun _ _ ↦ id
    rintro ns u ⟨hns, hu⟩
    refine ⟨?_, ?_, hu⟩
    · have := map_eq_map_of_forall₂ (f := id) (hns.imp fun _ _ hn ↦ hn.1)
      rw [List.map_id] at this
      exact this.symm
    · intro hwalk
      cases hwalk with
      | step hr hkind hhas hmet hnew hrest =>
        obtain ⟨n, -, hn⟩ := exists_of_forall₂_of_mem_right hns.flip hr
        exact hn.2 ⟨hkind, hhas, fun hmem ↦ hnew (hmet hmem)⟩ (hrest.anti hmet)

theorem not_descends_of_returns (hparsed : schema.Parsed) {depth : ℕ} {name : String}
    {visited : List String} (h : m.Sound schema)
    (hreturns : Returns (treeTo schema depth name visited) m) :
    ¬schema.Descends depth name visited := by
  obtain ⟨ns, t, hrun⟩ := hreturns
  exact ((ends_of_run_ok hrun).1 (ends_treeTo hparsed depth name visited h)).2.1

/-- Adds a relation of the entity `studly`, and what it leads to, to the entities collected. -/
def visit (schema : Schema) (depth : ℕ) (studly : String) :
    List String × List String → Relation → Resolve (List String × List String)
  | (collected, seen), r => do
    if r.kind == .belongsToMany then return (collected, seen)
    let collected := addNew collected [r.target]
    if seen.contains r.target then return (collected, seen)
    let (deeper, seen) ← relatedTo schema depth r.target seen
    return (addNew collected (deeper.filter (· != studly)), seen)

theorem relatedTo_succ (schema : Schema) (depth : ℕ) (name : String) (seen : List String) :
    relatedTo schema (depth + 1) name seen =
      nested schema (Name.studly name) >>= fun rs ↦
        rs.foldlM (visit schema depth (Name.studly name)) ([], Name.studly name :: seen) := rfl

/-- A depth that is not enough: there is no level, or an entity with requests starts a walk
through all levels below. -/
def Exceeds (schema : Schema) : ℕ → String → List String → Prop
  | 0, _, _ => True
  | depth + 1, name, seen =>
    schema.requests (Name.studly name) ≠ [] ∧ schema.Descends depth name seen

theorem descends_of_exceeds {depth : ℕ} {name : String} {seen met : List String} {r : Relation}
    (hr : r ∈ schema.requests (Name.studly name)) (hkind : r.kind ≠ .belongsToMany)
    (hmet : Name.studly name :: seen ⊆ met) (hnew : r.target ∉ met)
    (h : Exceeds schema depth r.target met) : schema.Descends depth name seen := by
  cases depth with
  | zero => exact .stay _ _
  | succ depth =>
    obtain ⟨hne, hwalk⟩ := h
    have hhas : schema.has r.target := by
      by_contra hno
      exact hne (Schema.requests_eq_nil (Schema.spelled_of_mem_requests hr) hno)
    exact .step hr hkind hhas hmet hnew hwalk

/-- What is seen once stays seen, and only studly names are added. -/
structure Keeps (seen seen' : List String) : Prop where
  subset : seen ⊆ seen'
  stable : Schema.Stable seen → Schema.Stable seen'

theorem Keeps.of_cons {seen seen' : List String} {r : Relation} (hr : r.Spelled)
    (h : Keeps (Name.studly r.target :: seen) seen') : Keeps seen seen' :=
  ⟨fun _ hv ↦ h.subset (List.mem_cons_of_mem _ hv), fun hstable ↦ h.stable (hstable.cons hr rfl)⟩

theorem ends_visit {depth : ℕ} {name : String} {seen : List String}
    (hrelated : ∀ (r : Relation) (met : List String) (m : Memory), r.Spelled → m.Sound schema →
      Ends (relatedTo schema depth r.target met) m
        (fun result t ↦ Keeps met result.2 ∧ t.Sound schema)
        fun e _ ↦ e = .endless ∧ Exceeds schema depth r.target met)
    {r : Relation} (hr : r ∈ schema.requests (Name.studly name))
    {acc : List String × List String} (hacc : Keeps (Name.studly name :: seen) acc.2)
    (h : m.Sound schema) :
    Ends (visit schema depth (Name.studly name) acc r) m
      (fun acc t ↦ Keeps (Name.studly name :: seen) acc.2 ∧ t.Sound schema)
      fun e _ ↦ e = .endless ∧ schema.Descends depth name seen := by
  obtain ⟨collected, met⟩ := acc
  rw [visit]
  by_cases hkind : r.kind = .belongsToMany
  · simp [hkind, hacc, h]
  by_cases hmet : r.target ∈ met
  · simp [hkind, hmet, hacc, h]
  simp only [hkind, hmet, beq_iff_eq, if_false, List.contains_eq_mem, decide_false,
    Bool.false_eq_true, ends_bind]
  refine (hrelated r met m (Schema.spelled_of_mem_requests hr) h).mono ?_ ?_
  · rintro result t ⟨hkeeps, ht⟩
    rw [ends_pure]
    exact ⟨⟨fun v hv ↦ hkeeps.subset (hacc.subset hv),
      fun hstable ↦ hkeeps.stable (hacc.stable hstable)⟩, ht⟩
  · rintro e t ⟨he, hexceeds⟩
    exact ⟨he, descends_of_exceeds hr hkind hacc.subset hmet hexceeds⟩

/-- The entities are collected down to a depth unless a guarded walk is as long. -/
theorem ends_relatedTo (depth : ℕ) (name : String) (seen : List String) (h : m.Sound schema) :
    Ends (relatedTo schema depth name seen) m
      (fun result t ↦ Keeps (Name.studly name :: seen) result.2 ∧ t.Sound schema)
      fun e _ ↦ e = .endless ∧ Exceeds schema depth name seen := by
  induction depth generalizing name seen m with
  | zero =>
    rw [relatedTo, ends_throw]
    exact ⟨rfl, trivial⟩
  | succ depth ih =>
    rw [relatedTo_succ, ends_bind]
    refine (ends_nested _ h).mono ?_ fun _ _ ↦ False.elim
    rintro rs t ⟨rfl, ht⟩
    have hrelated (r : Relation) (met : List String) (m : Memory) (hr : r.Spelled)
        (h : m.Sound schema) : Ends (relatedTo schema depth r.target met) m
          (fun result t ↦ Keeps met result.2 ∧ t.Sound schema)
          fun e _ ↦ e = .endless ∧ Exceeds schema depth r.target met :=
      (ih r.target met h).mono (fun _ _ hgood ↦ ⟨hgood.1.of_cons hr, hgood.2⟩) fun _ _ ↦ id
    rcases hrequests : schema.requests (Name.studly name) with - | ⟨r, rest⟩
    · rw [List.foldlM_nil, ends_pure]
      exact ⟨⟨List.Subset.refl _, id⟩, ht⟩
    · rw [← hrequests]
      refine (Ends.foldlM (fun acc t ↦ Keeps (Name.studly name :: seen) acc.2 ∧ t.Sound schema)
        ⟨⟨List.Subset.refl _, id⟩, ht⟩ fun r hr acc t hacc ↦
          ends_visit hrelated hr hacc.1 hacc.2).mono (fun _ _ ↦ id) ?_
      rintro e t ⟨he, hwalk⟩
      exact ⟨he, by simp [hrequests], hwalk⟩

/-- From an entity that is reached from itself past the guard nothing is ever collected. -/
theorem ends_relatedTo_of_loop (depth : ℕ) {a name : String} {seen : List String}
    (hloop : TransGen schema.Slips a a) (hname : Name.studly name = a)
    (hstable : Schema.Stable (Name.studly name :: seen)) (h : m.Sound schema) :
    Ends (relatedTo schema depth name seen) m (fun _ _ ↦ False) fun e _ ↦ e = .endless := by
  induction depth generalizing a name seen m with
  | zero => rw [relatedTo, ends_throw]
  | succ depth ih =>
    obtain ⟨b, hab, hba⟩ := TransGen.head'_iff.1 hloop
    have hb : TransGen schema.Slips b b := TransGen.tail' hba hab
    obtain ⟨r, hr, hkind, hhas, hne, rfl⟩ := hab
    rw [relatedTo_succ, ends_bind, hname]
    refine (ends_nested _ h).mono ?_ fun _ _ ↦ False.elim
    rintro rs t ⟨rfl, ht⟩
    -- Whatever was seen before the request that slips, all of it is studly, so it slips.
    refine Ends.foldlM_stuck (fun acc t ↦ Keeps (a :: seen) acc.2 ∧ t.Sound schema) hr
      ⟨⟨List.Subset.refl _, id⟩, ht⟩ ?_ ?_
    · rintro r hr acc t ⟨hacc, ht⟩
      rw [← hname] at hr hacc ⊢
      refine (ends_visit (fun r met m hr h ↦ ?_) hr hacc ht).mono (fun _ _ ↦ id)
        fun _ _ hbad ↦ hbad.1
      exact (ends_relatedTo depth r.target met h).mono
        (fun _ _ hgood ↦ ⟨hgood.1.of_cons hr, hgood.2⟩) fun _ _ ↦ id
    · rintro ⟨collected, met⟩ t ⟨hacc, ht⟩
      rw [hname] at hstable
      have hmet : Schema.Stable met := hacc.stable hstable
      have hnew : r.target ∉ met := fun hmem ↦ hne (hmet _ hmem)
      simp only [visit, hkind, hnew, beq_iff_eq, if_false, List.contains_eq_mem, decide_false,
        Bool.false_eq_true, ends_bind]
      refine (ih hb rfl (hmet.cons (Schema.spelled_of_mem_requests hr) rfl) ht).mono
        (fun _ _ ↦ False.elim) fun _ _ ↦ id

theorem returns_treeTo (hparsed : schema.Parsed) {need : List String → String → ℕ}
    (hneed : schema.Falls need) {depth : ℕ} {name : String} {visited : List String}
    (hdepth : need visited name < depth) (h : m.Sound schema) :
    Returns (treeTo schema depth name visited) m := by
  refine ((ends_treeTo hparsed depth name visited h).mono (fun _ _ ↦ id) ?_).returns
  rintro e t ⟨-, hwalk⟩
  exact absurd (hneed.le_of_descends hwalk) (by omega)

/-- Collecting takes one level more, for targets that are not defined. -/
theorem returns_relatedTo {need : List String → String → ℕ} (hneed : schema.Falls need)
    {depth : ℕ} {name : String} {visited : List String} (hdepth : need visited name + 1 < depth)
    (h : m.Sound schema) : Returns (relatedTo schema depth name visited) m := by
  refine ((ends_relatedTo depth name visited h).mono (fun _ _ ↦ id) ?_).returns
  rintro e t ⟨-, hexceeds⟩
  obtain ⟨depth, rfl⟩ := Nat.exists_eq_succ_of_ne_zero (show depth ≠ 0 by omega)
  exact absurd (hneed.le_of_descends hexceeds.2) (by omega)

theorem returns_related_iff (name : String) (visited : List String) :
    Returns (related schema name visited) m ↔
      Returns (relatedTo schema (enough schema) name visited) m := by
  rw [returns_iff_ends, returns_iff_ends, related, ends_bind]
  simp only [ends_pure]

/-- In an accepted schema nested requests can be followed from every entity exactly if no entity
is reached from itself past the guard. Otherwise some entity has neither a tree nor related
entities at any depth. If no request slips past the guard at all, one level more than there are
entities is enough. -/
theorem returns_iff_no_loop {raw : Value} (haccepted : Schema.Accepted raw schema) :
    ((∀ e ∈ schema, ∀ m : Memory, m.Sound schema →
        Returns (tree schema e.1 []) m ∧ Returns (related schema e.1 []) m) ↔
      ∀ a, ¬TransGen schema.Slips a a) ∧
    ((∃ a, TransGen schema.Slips a a) →
      ∃ e ∈ schema, ∀ (m : Memory) (depth : ℕ), m.Sound schema →
        ¬Returns (treeTo schema depth e.1 []) m ∧ ¬Returns (relatedTo schema depth e.1 []) m) ∧
    ((∀ a b, ¬schema.Slips a b) →
      ∀ e ∈ schema, ∀ m : Memory, m.Sound schema →
        Returns (treeTo schema (schema.length + 1) e.1 []) m ∧
          Returns (relatedTo schema (schema.length + 1) e.1 []) m) := by
  have hparsed : schema.Parsed := fun e he ↦ haccepted.fields he
  have hstuck : (∃ a, TransGen schema.Slips a a) →
      ∃ e ∈ schema, ∀ (m : Memory) (depth : ℕ), m.Sound schema →
        ¬Returns (treeTo schema depth e.1 []) m ∧
          ¬Returns (relatedTo schema depth e.1 []) m := by
    rintro ⟨a, hloop⟩
    obtain ⟨b, -, r, hr, -, hhas, -, ha⟩ := TransGen.tail'_iff.1 hloop
    obtain ⟨e, he, hname⟩ := Schema.has_iff.1 hhas
    have hstable : Schema.Stable [Name.studly e.1] :=
      Schema.Stable.cons (List.forall_mem_nil _) (Schema.spelled_of_mem_requests hr) hname
    refine ⟨e, he, fun m depth h ↦ ⟨?_, ?_⟩⟩
    · have hwalk := Schema.descends_of_loop depth hloop (hname.trans ha.symm) hstable
      exact ((ends_treeTo hparsed depth e.1 [] h).mono (fun _ _ hgood ↦ hgood.2.1 hwalk)
        fun _ _ ↦ id).not_returns
    · exact (ends_relatedTo_of_loop depth hloop (hname.trans ha.symm) hstable h).not_returns
  refine ⟨⟨?_, ?_⟩, hstuck, ?_⟩
  · intro hall a hloop
    obtain ⟨e, he, hno⟩ := hstuck ⟨a, hloop⟩
    exact (hno Memory.empty (enough schema) (Memory.sound_empty schema)).1
      (hall e he Memory.empty (Memory.sound_empty schema)).1
  · intro hloops e he m h
    have hneed := Schema.falls_rank hloops
    have hbound : schema.unmet [Name.studly e.1] * (schema.defined.card + 1) +
        schema.rank (Name.studly e.1) + 1 < enough schema := by
      have hunmet := schema.unmet_le [Name.studly e.1]
      have hrank := schema.rank_le (Name.studly e.1)
      have hcard := schema.card_defined_le
      rw [enough]
      nlinarith
    rw [returns_related_iff]
    exact ⟨returns_treeTo hparsed hneed (by omega) h, returns_relatedTo hneed hbound h⟩
  · intro hslips e he m h
    have hneed := Schema.falls_unmet hslips
    have hbound : schema.unmet [Name.studly e.1] < schema.length := by
      have hmem := Schema.studly_mem_defined.2 (Schema.has_iff.2 ⟨e, he, rfl⟩)
      exact (Schema.unmet_lt hmem (by simp) (List.Subset.refl [])).trans_le
        ((schema.unmet_le []).trans schema.card_defined_le)
    exact ⟨returns_treeTo hparsed hneed (by omega) h, returns_relatedTo hneed (by omega) h⟩

/-- An entity that is nested in itself under another spelling of its name. -/
def selfNestedEntries : List (Value × Value) :=
  [(.text "Abc", .map [(.text "relations", .map [(.text "hasMany", .text "a_b_c:loop")]),
    (.text "nested_requests", .list [.text "loop"])])]

def selfNested : Schema :=
  [("Abc", ⟨[], [("hasMany", .line "a_b_c:loop")], ["loop"], .unset, [], [], []⟩)]

theorem selfNested_not_returns :
    Schema.Accepted (.map selfNestedEntries) selfNested ∧ ∀ depth,
      ¬Returns (treeTo selfNested depth "Abc" []) Memory.empty ∧
        ¬Returns (relatedTo selfNested depth "Abc" []) Memory.empty := by
  have haccepted : Schema.Accepted (.map selfNestedEntries) selfNested :=
    ⟨by decide, selfNestedEntries, rfl, rfl⟩
  have hslips : selfNested.Slips "Abc" "Abc" :=
    ⟨⟨"loop", .hasMany, "ABC"⟩, by decide, by decide, by decide, by decide,
      by decide⟩
  obtain ⟨e, he, hno⟩ := (returns_iff_no_loop haccepted).2.1 ⟨"Abc", .single hslips⟩
  obtain rfl := List.mem_singleton.1 he
  exact ⟨haccepted, fun depth ↦ hno Memory.empty depth (Memory.sound_empty _)⟩

end Resolve

end Scaffold
