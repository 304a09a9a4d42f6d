import Mathlib
import Scaffold.Proofs.Nesting.Descent
import Scaffold.Proofs.Nesting.Nodes

/-!
# Related entities are those of the tree

The tree of nested requests and the list of related entities come from two walks. The tree keeps
the path to a node and may expand an entity many times; the list shares one record of what was
seen, expands each entity once and leaves out the entity at hand on every level. If studly names
stay as they are in studly case, both find what can be reached by following requests.

Neither walk is followed along a path. The tree is closed under requests but for entities on the
path to its root (`Schema.Grown`), the list but for what was seen before (`Schema.Collected`), and
at the start there are none of either.
-/

open Relation (TransGen ReflTransGen)

namespace Scaffold

namespace NestedRelation

/-- Some node of the tree nests single records or lists of records of the entity `target`. -/
def Nests (roots : List NestedRelation) (target : String) : Prop :=
  ∃ n, Within roots n ∧ (n.relation.kind = .hasOne ∨ n.relation.kind = .hasMany) ∧
    n.relation.target = target

theorem nests_iff {roots : List NestedRelation} {target : String} :
    Nests roots target ↔ ∃ root ∈ roots,
      (root.relation.kind = .hasOne ∨ root.relation.kind = .hasMany) ∧
        root.relation.target = target ∨ Nests root.children target := by
  constructor
  · rintro ⟨n, hn, hkind⟩
    obtain ⟨root, hroot, rfl | hwithin⟩ := within_iff.1 hn
    · exact ⟨n, hroot, .inl hkind⟩
    · exact ⟨root, hroot, .inr ⟨n, hwithin, hkind⟩⟩
  · rintro ⟨root, hroot, hkind | ⟨n, hn, hkind⟩⟩
    · exact ⟨root, .root hroot, hkind⟩
    · exact ⟨n, hn.of_children hroot, hkind⟩

end NestedRelation

open NestedRelation (Nests nests_iff)

namespace Schema

variable {schema : Schema} {name : String}

/-- The studly names of the entities and the targets of relations are their own studly case. -/
structure IsStable (schema : Schema) : Prop where
  keys : ∀ e ∈ schema, Name.studly (Name.studly e.1) = Name.studly e.1
  targets : ∀ e ∈ schema, ∀ r ∈ (Relation.readAll e.1 e.2.relations).1,
    Name.studly r.target = r.target

/-- A request of `a` nests single records or lists of records of `b`. -/
def Follows (schema : Schema) (a b : String) : Prop :=
  ∃ r ∈ schema.requests a, (r.kind = .hasOne ∨ r.kind = .hasMany) ∧ r.target = b

theorem isNestable_of_mem_requests {r : Relation} (h : r ∈ schema.requests name) :
    r.isNestable := by
  rw [requests] at h
  split at h
  · simp at h
  · rw [named, List.mem_eraseDups, List.mem_filter] at h
    exact h.2

theorem kind_of_mem_requests {r : Relation} (h : r ∈ schema.requests name)
    (hkind : r.kind ≠ .belongsToMany) : r.kind = .hasOne ∨ r.kind = .hasMany := by
  have hnest := isNestable_of_mem_requests h
  rw [Relation.isNestable] at hnest
  generalize r.kind = kind at hkind hnest ⊢
  cases kind <;> simp_all

theorem follows_of_mem_requests {r : Relation} (h : r ∈ schema.requests name)
    (hkind : r.kind ≠ .belongsToMany) : schema.Follows name r.target :=
  ⟨r, h, kind_of_mem_requests h hkind, rfl⟩

theorem IsStable.target (h : schema.IsStable) {r : Relation} (hr : r ∈ schema.requests name) :
    Name.studly r.target = r.target := by
  rw [requests] at hr
  split at hr
  · simp at hr
  · rw [named, List.mem_eraseDups, List.mem_filter, List.mem_filterMap] at hr
    obtain ⟨⟨request, -, hrequest⟩, -⟩ := hr
    have hmem := mem_of_requested? hrequest
    rw [relationsOf] at hmem
    rcases hfind : schema.find? (Name.studly (Name.studly name)) with - | e
    · simp [hfind, Relation.readAll] at hmem
    · obtain ⟨key, he, -⟩ := exists_of_find? hfind
      rw [hfind, Option.map_some, Option.getD_some, Relation.readAll_owner "" key] at hmem
      exact h.targets _ he r hmem

theorem IsStable.not_slips (h : schema.IsStable) (a b : String) : ¬schema.Slips a b := by
  rintro ⟨r, hr, -, -, hne, -⟩
  exact hne (h.target hr)

/-- What is reached in a step from a set that requests do not lead out of is in the set. -/
theorem mem_of_transGen {s : String → Prop} {a b : String}
    (hstart : ∀ y, schema.Follows a y → s y)
    (hclosed : ∀ x y, s x → schema.Follows x y → s y) (h : TransGen schema.Follows a b) : s b := by
  induction h with
  | single hab => exact hstart _ hab
  | tail _ hbc ih => exact hclosed _ _ ih hbc

/-! ## What each walk finds -/

/-- A tree from `name`, with the entities in `visited` on the path to it: it nests what is
reached, and whatever requests of `name` and of nested entities off that path lead to. -/
structure Grown (schema : Schema) (name : String) (visited : List String)
    (roots : List NestedRelation) : Prop where
  reached : ∀ x, Nests roots x → TransGen schema.Follows name x
  start : ∀ y, schema.Follows name y → Nests roots y
  closed : ∀ x, Nests roots x → x ∉ visited → ∀ y, schema.Follows x y → Nests roots y

/-- A root of such a tree. -/
structure Rooted (schema : Schema) (name : String) (visited : List String) (r : Relation)
    (root : NestedRelation) : Prop where
  relation : root.relation = r
  reached : ∀ x, Nests [root] x → TransGen schema.Follows name x
  closed : ∀ x, Nests [root] x → x ∉ name :: visited → ∀ y, schema.Follows x y → Nests [root] y

theorem Grown.nests_iff {roots : List NestedRelation} (h : schema.Grown name [] roots)
    {x : String} : Nests roots x ↔ TransGen schema.Follows name x := by
  refine ⟨h.reached x, mem_of_transGen h.start ?_⟩
  exact fun x y hx ↦ h.closed x hx (List.not_mem_nil) y

theorem nests_of_mem {roots : List NestedRelation} {root : NestedRelation} (hroot : root ∈ roots)
    {x : String} (h : Nests [root] x) : Nests roots x := by
  obtain ⟨root', hmem, hx⟩ := NestedRelation.nests_iff.1 h
  obtain rfl := List.mem_singleton.1 hmem
  exact NestedRelation.nests_iff.2 ⟨root', hroot, hx⟩

theorem exists_nests {roots : List NestedRelation} {x : String} (h : Nests roots x) :
    ∃ root ∈ roots, Nests [root] x := by
  obtain ⟨root, hroot, hx⟩ := NestedRelation.nests_iff.1 h
  exact ⟨root, hroot, NestedRelation.nests_iff.2 ⟨root, by simp, hx⟩⟩

/-- One root for each request makes a tree. -/
theorem grown_of_forall₂ {visited : List String} {roots : List NestedRelation}
    (h : List.Forall₂ (fun r root ↦ schema.Rooted name visited r root) (schema.requests name)
      roots) : schema.Grown name visited roots := by
  have hroots (root : NestedRelation) (hroot : root ∈ roots) :
      ∃ r ∈ schema.requests name, schema.Rooted name visited r root :=
    exists_of_forall₂_of_mem_right h hroot
  have hstart (y : String) (hy : schema.Follows name y) : Nests roots y := by
    obtain ⟨r, hr, hkind, rfl⟩ := hy
    obtain ⟨root, hroot, hrooted⟩ := exists_of_forall₂_of_mem_right h.flip hr
    obtain rfl := hrooted.relation
    exact NestedRelation.nests_iff.2 ⟨root, hroot, .inl ⟨hkind, rfl⟩⟩
  refine ⟨fun x hx ↦ ?_, hstart, fun x hx hnew y hxy ↦ ?_⟩
  · obtain ⟨root, hroot, hx⟩ := exists_nests hx
    obtain ⟨r, -, hrooted⟩ := hroots root hroot
    exact hrooted.reached x hx
  · obtain ⟨root, hroot, hx⟩ := exists_nests hx
    obtain ⟨r, -, hrooted⟩ := hroots root hroot
    by_cases hname : x = name
    · exact hstart y (hname ▸ hxy)
    · exact nests_of_mem hroot (hrooted.closed x hx (by simp [hname, hnew]) y hxy)

/-- A root without a tree below. -/
theorem rooted_leaf {visited : List String} {r : Relation} {fields : List Field}
    (hr : r ∈ schema.requests name)
    (hleaf : r.kind ≠ .belongsToMany → r.target ∉ name :: visited →
      ∀ y, ¬schema.Follows r.target y) :
    schema.Rooted name visited r ⟨name, r, fields, []⟩ := by
  have hnests (x : String) (hx : Nests [⟨name, r, fields, []⟩] x) :
      r.kind ≠ .belongsToMany ∧ r.target = x := by
    obtain ⟨root, hroot, hx⟩ := NestedRelation.nests_iff.1 hx
    obtain rfl := List.mem_singleton.1 hroot
    rcases hx with ⟨hkind, rfl⟩ | hx
    · exact ⟨by rcases hkind with hkind | hkind <;> simp_all, rfl⟩
    · obtain ⟨_, hnil, -⟩ := NestedRelation.nests_iff.1 hx
      simp at hnil
  refine ⟨rfl, fun x hx ↦ ?_, fun x hx hnew y hxy ↦ ?_⟩
  · obtain ⟨hkind, rfl⟩ := hnests x hx
    exact .single (follows_of_mem_requests hr hkind)
  · obtain ⟨hkind, rfl⟩ := hnests x hx
    exact (hleaf hkind hnew y hxy).elim

/-- A root with the tree of its target. -/
theorem Grown.rooted {visited : List String} {r : Relation} {fields : List Field}
    {children : List NestedRelation} (hr : r ∈ schema.requests name)
    (hkind : r.kind ≠ .belongsToMany)
    (h : schema.Grown r.target (name :: visited) children) :
    schema.Rooted name visited r ⟨name, r, fields, children⟩ := by
  have hnests (x : String) : Nests [⟨name, r, fields, children⟩] x ↔
      r.target = x ∨ Nests children x := by
    rw [NestedRelation.nests_iff]
    simp [kind_of_mem_requests hr hkind]
  have hfollows := follows_of_mem_requests hr hkind
  refine ⟨rfl, fun x hx ↦ ?_, fun x hx hnew y hxy ↦ (hnests y).2 (.inr ?_)⟩
  · rcases (hnests x).1 hx with rfl | hx
    · exact .single hfollows
    · exact .head hfollows (h.reached x hx)
  · rcases (hnests x).1 hx with rfl | hx
    · exact h.start y hxy
    · exact h.closed x hx hnew y hxy

/-- What is collected from `name` when `seen` was seen before: each entity once, all of it
reached, and whatever requests of the entities seen on the way lead to, but `name` itself. -/
structure Collected (schema : Schema) (name : String) (seen : List String)
    (result : List String × List String) : Prop where
  nodup : result.1.Nodup
  reached : ∀ x ∈ result.1, TransGen schema.Follows name x
  subset : name :: seen ⊆ result.2
  closed : ∀ v ∈ result.2, v ∉ seen → ∀ y, schema.Follows v y →
    y ∈ result.2 ∧ (y = name ∨ y ∈ result.1)

theorem Collected.mem_iff {result : List String × List String}
    (h : schema.Collected name [] result) {x : String} (hx : x ≠ name) :
    x ∈ result.1 ↔ TransGen schema.Follows name x := by
  refine ⟨h.reached x, fun hreach ↦ ?_⟩
  have hstep (v y : String) (hv : v ∈ result.2) (hvy : schema.Follows v y) :=
    h.closed v hv (List.not_mem_nil) y hvy
  have hname : name ∈ result.2 := h.subset (by simp)
  have hfound : x ∈ result.2 ∧ (x = name ∨ x ∈ result.1) :=
    mem_of_transGen (s := fun y ↦ y ∈ result.2 ∧ (y = name ∨ y ∈ result.1)) (fun y hy ↦ hstep name y hname hy) (fun v y hv hvy ↦ hstep v y hv.1 hvy) hreach
  exact hfound.2.resolve_left hx

end Schema

/-! ## Runs -/

namespace Resolve

variable {schema : Schema} {m : Memory}

/-- Fields are read, or some cannot be parsed. -/
theorem ends_fields_or_unparsed (name : String) (h : m.Sound schema) :
    Ends (fields schema name) m (fun _ t ↦ t.Sound schema)
      fun e _ ↦ ¬schema.Parsed ∧ ∃ reason, e = .field reason := by
  by_cases hparsed : schema.Parsed
  · exact (ends_fields_of_parsed hparsed name h).mono (fun _ _ ↦ id) fun _ _ ↦ False.elim
  rcases hparse : Field.parseAll (schema.definitionsOf name) with reason | found
  · rw [fields, ends_bind, ends_get]
    rcases hknown : m.fields.lookup (Name.studly name) with - | known
    · rw [Schema.definitionsOf] at hparse
      simp only [hparse, ends_throw]
      exact ⟨hparsed, reason, rfl⟩
    · exact (ends_pure known).2 h
  · exact (ends_fields h hparse).mono (fun _ _ ht ↦ ht.2) fun _ _ ↦ False.elim

/-- A tree cannot be built: there are walks as long as it is deep, or fields cannot be parsed. -/
def TreeFails (schema : Schema) (depth : ℕ) (name : String) (visited : List String)
    (e : ResolveError) : Prop :=
  e = .endless ∧ schema.Descends depth name visited ∨
    ¬schema.Parsed ∧ ∃ reason, e = .field reason

theorem ends_node_rooted (hstable : schema.IsStable) {depth : ℕ} {name : String}
    {visited : List String}
    (htree : ∀ (target : String) (path : List String) (m : Memory),
      Name.studly target = target → m.Sound schema →
        Ends (treeTo schema depth target path) m
          (fun ns t ↦ schema.Grown target path ns ∧ t.Sound schema)
          fun e _ ↦ TreeFails schema depth target path e)
    {r : Relation} (hr : r ∈ schema.requests (Name.studly name)) (h : m.Sound schema) :
    Ends (node schema depth name visited r) m
      (fun n t ↦ schema.Rooted (Name.studly name) visited r n ∧ t.Sound schema)
      fun e _ ↦ TreeFails schema (depth + 1) name visited e := by
  have htarget := hstable.target hr
  rw [node]
  by_cases hkind : r.kind = .belongsToMany
  · simp only [hkind, beq_self_eq_true, if_true, ends_pure]
    exact ⟨Schema.rooted_leaf hr fun hne ↦ (hne hkind).elim, h⟩
  by_cases hhas : schema.has r.target
  · simp only [hkind, hhas, beq_iff_eq, if_false, Bool.not_true, Bool.false_eq_true, ends_bind]
    refine (ends_fields_or_unparsed r.target h).mono (fun found t ht ↦ ?_) fun _ _ ↦ .inr
    by_cases hmet : r.target ∈ Name.studly name :: visited
    · simp only [hmet, List.contains_eq_mem, decide_true, if_true, ends_pure]
      exact ⟨Schema.rooted_leaf hr fun _ hnew ↦ (hnew hmet).elim, ht⟩
    · simp only [List.contains_eq_mem, hmet, decide_false, Bool.false_eq_true, if_false, ends_bind]
      refine (htree r.target _ t htarget ht).mono ?_ ?_
      · rintro ns u ⟨hgrown, hu⟩
        rw [ends_pure]
        exact ⟨hgrown.rooted hr hkind, hu⟩
      · rintro e u (⟨he, hwalk⟩ | hunparsed)
        · exact .inl ⟨he, .step hr hkind hhas (List.Subset.refl _) hmet hwalk⟩
        · exact .inr hunparsed
  · simp only [hkind, hhas, beq_iff_eq, if_false, Bool.not_false, if_true, ends_bind]
    refine (ends_warn _ h).mono (fun _ t ht ↦ ?_) fun _ _ ↦ False.elim
    rw [ends_pure]
    refine ⟨Schema.rooted_leaf hr fun _ _ y hy ↦ ?_, ht⟩
    -- Nothing follows an entity that is not defined.
    obtain ⟨s, hs, -⟩ := hy
    rw [← htarget, Schema.requests_eq_nil (Schema.spelled_of_mem_requests hr) hhas] at hs
    simp at hs

theorem ends_treeTo_grown (hstable : schema.IsStable) (depth : ℕ) (name : String)
    (visited : List String) (h : m.Sound schema) :
    Ends (treeTo schema depth name visited) m
      (fun ns t ↦ schema.Grown (Name.studly name) visited ns ∧ t.Sound schema)
      fun e _ ↦ TreeFails schema depth name visited e := by
  induction depth generalizing name visited m with
  | zero =>
    rw [treeTo, ends_throw]
    exact .inl ⟨rfl, .stay _ _⟩
  | succ depth ih =>
    rw [treeTo_succ, ends_bind]
    refine (ends_nested _ h).mono ?_ fun _ _ ↦ False.elim
    rintro rs t ⟨rfl, ht⟩
    have htree (target : String) (path : List String) (m : Memory)
        (htarget : Name.studly target = target) (h : m.Sound schema) :
        Ends (treeTo schema depth target path) m
          (fun ns t ↦ schema.Grown target path ns ∧ t.Sound schema)
          fun e _ ↦ TreeFails schema depth target path e := by
      have := ih target path h
      rwa [htarget] at this
    refine (Ends.mapM ht fun r hr t ht ↦ ends_node_rooted hstable htree hr ht).mono ?_
      fun _ _ ↦ id
    rintro ns u ⟨hns, hu⟩
    exact ⟨Schema.grown_of_forall₂ hns, hu⟩

/-! ## Collecting -/

theorem mem_addNew {names more : List String} {x : String} :
    x ∈ addNew names more ↔ x ∈ names ∨ x ∈ more := by
  rw [addNew]
  induction more generalizing names with
  | nil => simp
  | cons name rest ih =>
    rw [List.foldl_cons, ih, List.mem_cons]
    by_cases hname : name ∈ names
    · simp only [List.contains_eq_mem, hname, decide_true, if_true]
      exact ⟨fun h ↦ h.imp_right .inr, by rintro (h | rfl | h) <;> simp_all⟩
    · simp only [List.contains_eq_mem, hname, decide_false, Bool.false_eq_true, if_false,
        List.mem_append, List.mem_singleton]
      exact or_assoc

theorem nodup_addNew {names : List String} (more : List String) (h : names.Nodup) :
    (addNew names more).Nodup := by
  rw [addNew]
  refine List.foldlRecOn (motive := List.Nodup) more _ h fun acc hacc name _ ↦ ?_
  split
  · exact hacc
  · rename_i hname
    rw [List.contains_eq_mem, decide_eq_true_eq] at hname
    exact List.nodup_append.2 ⟨hacc, by simp, by rintro a ha b hb rfl; simp_all⟩

/-- What is collected part of the way through the requests of `name`. -/
structure Gathers (schema : Schema) (name : String) (seen : List String)
    (acc : List String × List String) : Prop where
  nodup : acc.1.Nodup
  reached : ∀ x ∈ acc.1, TransGen schema.Follows name x
  subset : name :: seen ⊆ acc.2
  closed : ∀ v ∈ acc.2, v ∉ name :: seen → ∀ y, schema.Follows v y →
    y ∈ acc.2 ∧ (y = name ∨ y ∈ acc.1)

/-- The target of a request is dealt with. -/
def Done (r : Relation) (acc : List String × List String) : Prop :=
  r.kind ≠ .belongsToMany → r.target ∈ acc.1 ∧ r.target ∈ acc.2

theorem Done.mono {r : Relation} {acc acc' : List String × List String} (h : Done r acc)
    (hcollected : acc.1 ⊆ acc'.1) (hseen : acc.2 ⊆ acc'.2) : Done r acc' :=
  fun hkind ↦ ⟨hcollected (h hkind).1, hseen (h hkind).2⟩

theorem Gathers.collected {name : String} {seen : List String} {acc : List String × List String}
    (h : Gathers schema name seen acc) (hdone : ∀ r ∈ schema.requests name, Done r acc) :
    schema.Collected name seen acc := by
  refine ⟨h.nodup, h.reached, h.subset, fun v hv hnew y hvy ↦ ?_⟩
  by_cases hname : v = name
  · obtain ⟨r, hr, hkind, rfl⟩ := hname ▸ hvy
    obtain ⟨hcollected, hseen⟩ := hdone r hr (by rcases hkind with hkind | hkind <;> simp [hkind])
    exact ⟨hseen, .inr hcollected⟩
  · exact h.closed v hv (by simp [hname, hnew]) y hvy

/-- The target of a request is added. -/
theorem Gathers.add {name : String} {seen collected met : List String} {r : Relation}
    (h : Gathers schema name seen (collected, met)) (hr : r ∈ schema.requests name)
    (hkind : r.kind ≠ .belongsToMany) :
    Gathers schema name seen (addNew collected [r.target], met) := by
  refine ⟨nodup_addNew _ h.nodup, fun x hx ↦ ?_, h.subset, fun v hv hnew y hvy ↦ ?_⟩
  · rcases mem_addNew.1 hx with hx | hx
    · exact h.reached x hx
    · obtain rfl := List.mem_singleton.1 hx
      exact .single (Schema.follows_of_mem_requests hr hkind)
  · obtain ⟨hy, hcollected⟩ := h.closed v hv hnew y hvy
    exact ⟨hy, hcollected.imp_right fun hmem ↦ mem_addNew.2 (.inl hmem)⟩

/-- What is collected from a target that was not seen is added, but for the entity at hand. -/
theorem Gathers.deepen {name : String} {seen collected met : List String} {r : Relation}
    {result : List String × List String} (h : Gathers schema name seen (collected, met))
    (hr : r ∈ schema.requests name) (hkind : r.kind ≠ .belongsToMany)
    (htarget : r.target ∈ collected) (hresult : schema.Collected r.target met result) :
    Gathers schema name seen (addNew collected (result.1.filter (· != name)), result.2) := by
  have hfollows := Schema.follows_of_mem_requests hr hkind
  have hsub : met ⊆ result.2 := fun v hv ↦ hresult.subset (List.mem_cons_of_mem _ hv)
  refine ⟨nodup_addNew _ h.nodup, fun x hx ↦ ?_, fun v hv ↦ hsub (h.subset hv),
    fun v hv hnew y hvy ↦ ?_⟩
  · rcases mem_addNew.1 hx with hx | hx
    · exact h.reached x hx
    · exact .head hfollows (hresult.reached x (List.mem_filter.1 hx).1)
  · by_cases hmet : v ∈ met
    · obtain ⟨hy, hcollected⟩ := h.closed v hmet hnew y hvy
      exact ⟨hsub hy, hcollected.imp_right fun hmem ↦ mem_addNew.2 (.inl hmem)⟩
    · obtain ⟨hy, hfound⟩ := hresult.closed v hv hmet y hvy
      refine ⟨hy, or_iff_not_imp_left.2 fun hne ↦ mem_addNew.2 ?_⟩
      rcases hfound with rfl | hfound
      · exact .inl htarget
      · exact .inr (List.mem_filter.2 ⟨hfound, by simpa using hne⟩)

theorem ends_visit_gathers (hstable : schema.IsStable) {depth : ℕ} {name : String}
    {seen : List String}
    (hrelated : ∀ (target : String) (met : List String) (m : Memory),
      Name.studly target = target → m.Sound schema →
        Ends (relatedTo schema depth target met) m
          (fun result t ↦ schema.Collected target met result ∧ t.Sound schema)
          fun _ _ ↦ True)
    {r : Relation} (hr : r ∈ schema.requests name) {acc : List String × List String}
    (hacc : Gathers schema name seen acc) (h : m.Sound schema) :
    Ends (visit schema depth name acc r) m
      (fun acc' t ↦ (Gathers schema name seen acc' ∧ t.Sound schema) ∧ Done r acc' ∧
        ∀ s, Done s acc → Done s acc')
      fun _ _ ↦ True := by
  obtain ⟨collected, met⟩ := acc
  rw [visit]
  by_cases hkind : r.kind = .belongsToMany
  · simp [hkind, hacc, h, Done]
  have hadd := hacc.add hr hkind
  have htarget : r.target ∈ addNew collected [r.target] := mem_addNew.2 (.inr (by simp))
  have hold : collected ⊆ addNew collected [r.target] := fun x hx ↦ mem_addNew.2 (.inl hx)
  by_cases hmet : r.target ∈ met
  · simp only [hkind, hmet, beq_iff_eq, if_false, List.contains_eq_mem, decide_true, if_true,
      ends_pure]
    exact ⟨⟨hadd, h⟩, fun _ ↦ ⟨htarget, hmet⟩, fun s hs ↦ hs.mono hold fun _ ↦ id⟩
  · simp only [hkind, hmet, beq_iff_eq, if_false, List.contains_eq_mem, decide_false,
      Bool.false_eq_true, ends_bind]
    refine (hrelated r.target met m (hstable.target hr) h).mono ?_ fun _ _ ↦ id
    rintro result t ⟨hresult, ht⟩
    rw [ends_pure]
    have hmore : addNew collected [r.target] ⊆
        addNew (addNew collected [r.target]) (result.1.filter (· != name)) :=
      fun x hx ↦ mem_addNew.2 (.inl hx)
    refine ⟨⟨hadd.deepen hr hkind htarget hresult, ht⟩,
      fun _ ↦ ⟨hmore htarget, hresult.subset (by simp)⟩, fun s hs ↦ hs.mono ?_ ?_⟩
    · exact fun x hx ↦ hmore (hold hx)
    · exact fun v hv ↦ hresult.subset (List.mem_cons_of_mem _ hv)

theorem ends_relatedTo_collected (hstable : schema.IsStable) (depth : ℕ) (name : String)
    (seen : List String) (h : m.Sound schema) :
    Ends (relatedTo schema depth name seen) m
      (fun result t ↦ schema.Collected (Name.studly name) seen result ∧ t.Sound schema)
      fun _ _ ↦ True := by
  induction depth generalizing name seen m with
  | zero => rw [relatedTo, ends_throw]; trivial
  | succ depth ih =>
    rw [relatedTo_succ, ends_bind]
    refine (ends_nested _ h).mono ?_ fun _ _ ↦ False.elim
    rintro rs t ⟨rfl, ht⟩
    have hrelated (target : String) (met : List String) (m : Memory)
        (htarget : Name.studly target = target) (h : m.Sound schema) :
        Ends (relatedTo schema depth target met) m
          (fun result t ↦ schema.Collected target met result ∧ t.Sound schema)
          fun _ _ ↦ True := by
      have := ih target met h
      rwa [htarget] at this
    have hstart : Gathers schema (Name.studly name) seen ([], Name.studly name :: seen) :=
      ⟨List.nodup_nil, by simp, List.Subset.refl _, fun v hv hnew ↦ (hnew hv).elim⟩
    refine (Ends.foldlM_each
      (fun acc t ↦ Gathers schema (Name.studly name) seen acc ∧ t.Sound schema) Done ⟨hstart, ht⟩ fun r hr acc t hacc ↦
        ends_visit_gathers hstable hrelated hr hacc.1 hacc.2).mono ?_ fun _ _ ↦ id
    rintro acc u ⟨⟨hacc, hu⟩, hdone⟩
    exact ⟨hacc.collected hdone, hu⟩

/-- Walks from an entity of a stable schema end within the depth that resolvers use. -/
theorem unmet_add_one_lt_enough {e : String × Entity} (he : e ∈ schema) :
    schema.unmet [Name.studly e.1] + 1 < enough schema := by
  have hmem := Schema.studly_mem_defined.2 (Schema.has_iff.2 ⟨e, he, rfl⟩)
  have hunmet : schema.unmet [Name.studly e.1] < schema.length :=
    (Schema.unmet_lt hmem (by simp) (List.Subset.refl [])).trans_le
      ((schema.unmet_le []).trans schema.card_defined_le)
  rw [enough]
  nlinarith

/-- The related entities of an entity are listed once each and, itself aside, they are those that
its tree nests at any depth. The list is always found, the tree unless some fields of the schema
cannot be parsed. -/
theorem mem_related_iff_nests (hstable : schema.IsStable) {e : String × Entity}
    (he : e ∈ schema) (h : m.Sound schema) :
    ∃ names t, (related schema e.1 []).run.run m = (.ok names, t) ∧ names.Nodup ∧
      ∀ m' : Memory, m'.Sound schema →
        Ends (tree schema e.1 []) m'
          (fun roots _ ↦ ∀ x, x ≠ Name.studly e.1 → (x ∈ names ↔ Nests roots x))
          fun failure _ ↦ ¬schema.Parsed ∧ ∃ reason, failure = .field reason := by
  have hneed := Schema.falls_unmet hstable.not_slips
  have henough := unmet_add_one_lt_enough he
  obtain ⟨⟨names, met⟩, t, hrun⟩ := returns_relatedTo hneed henough h
  have hcollected : schema.Collected (Name.studly e.1) [] (names, met) :=
    ((ends_of_run_ok hrun).1 (ends_relatedTo_collected hstable _ e.1 [] h)).1
  have hnames : (related schema e.1 []).run.run m = (.ok names, t) := by
    rw [related, ExceptT.run_bind, StateT.run_bind, hrun]
    rfl
  refine ⟨names, t, hnames, hcollected.nodup, fun m' h' ↦ ?_⟩
  refine (ends_treeTo_grown hstable _ e.1 [] h').mono ?_ ?_
  · rintro roots - ⟨hgrown, -⟩ x hx
    exact (hcollected.mem_iff hx).trans hgrown.nests_iff.symm
  · rintro failure - (⟨-, hwalk⟩ | hunparsed)
    · have := hneed.le_of_descends hwalk
      omega
    · exact hunparsed

/-- Two entities that nest each other, one of which nests an entity that is not defined. -/
def libraryOfBooks : Schema :=
  [("Author", ⟨[("name", "string")], [("hasMany", .line "Book")], ["books"], .unset, [], [], []⟩),
    ("Book", ⟨[("title", "string")], [("hasOne", .line "Author, Cover")], ["author", "cover"],
      .unset, [], [], []⟩)]

theorem libraryOfBooks_mem_related_iff_nests :
    libraryOfBooks.IsStable ∧ ∃ e, ("Author", e) ∈ libraryOfBooks ∧
      ∃ names t, (related libraryOfBooks "Author" []).run.run Memory.empty = (.ok names, t) ∧
        names.Nodup ∧ ∀ m' : Memory, m'.Sound libraryOfBooks →
          Ends (tree libraryOfBooks "Author" []) m'
            (fun roots _ ↦ ∀ x, x ≠ "Author" → (x ∈ names ↔ Nests roots x))
            fun failure _ ↦ ¬libraryOfBooks.Parsed ∧ ∃ reason, failure = .field reason := by
  have hstable : libraryOfBooks.IsStable := ⟨by decide +kernel, by decide +kernel⟩
  have he : libraryOfBooks[0] ∈ libraryOfBooks := by simp [libraryOfBooks]
  have hauthor : Name.studly "Author" = "Author" := by decide
  have := mem_related_iff_nests hstable he (Memory.sound_empty _)
  rw [show libraryOfBooks[0].1 = "Author" from rfl, hauthor] at this
  exact ⟨hstable, _, he, this⟩

end Resolve

end Scaffold
