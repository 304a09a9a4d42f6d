import Scaffold.Proofs.Configuration.Building
import Scaffold.Proofs.Nesting.Caching
import Scaffold.Proofs.Schema.Order

/-!
# Entities in another order

A resolver knows a schema only by what names find in it. If the entities stand in another order it
does exactly what it did, and since nothing shows what it remembers, every entity is worked out as it
was, whichever entities have been worked out before it.
-/

namespace Scaffold

variable {ε α β : Type} {schema schema' : Schema} {m : Memory}

/-! ## What is worked out one by one -/

/-- What the computation gives if nothing is remembered. -/
def resultAfresh (x : ExceptT ε (StateM Memory) α) : Except ε α := (x.run.run Memory.empty).1

theorem Oblivious.settles {x : ExceptT ε (StateM Memory) α} (h : Oblivious schema x) :
    ∃ messages, Settles schema x (resultAfresh x) messages := by
  obtain ⟨result, messages, hsettles⟩ := h
  have hresult := (hsettles.run_eq (Memory.faithful_empty schema)).1
  unfold resultAfresh
  exact ⟨messages, hresult ▸ hsettles⟩

/-- Each element of a list gives what it would give afresh, up to the first failure. -/
theorem Oblivious.settles_mapM {f : α → ExceptT ε (StateM Memory) β} {l : List α}
    (h : ∀ a ∈ l, Oblivious schema (f a)) :
    ∃ messages, Settles schema (l.mapM f) (l.mapM fun a ↦ resultAfresh (f a)) messages := by
  induction l with
  | nil => exact ⟨[], settles_pure schema []⟩
  | cons a rest ih =>
    rw [List.forall_mem_cons] at h
    obtain ⟨messages, ha⟩ := h.1.settles
    rw [List.mapM_cons, List.mapM_cons]
    generalize resultAfresh (f a) = result at ha ⊢
    cases result with
    | error e => exact ⟨messages, ha.bind_error _⟩
    | ok b =>
      obtain ⟨messages', hrest⟩ := ih h.2
      refine ⟨messages ++ messages', ha.bind ?_⟩
      generalize rest.mapM (fun a ↦ resultAfresh (f a)) = results at hrest ⊢
      cases results with
      | error e => exact hrest.bind_error _
      | ok bs =>
        have hall : Settles schema (rest.mapM f >>= fun bs ↦ pure (b :: bs)) (.ok (b :: bs))
            (messages' ++ []) := hrest.bind (settles_pure schema (b :: bs))
        rwa [List.append_nil] at hall

/-! ## Schemas in which names find the same -/

namespace Resolve

variable (hfind : schema'.find? = schema.find?)

include hfind

theorem has_congr : schema'.has = schema.has := by
  funext name
  unfold Schema.has
  rw [hfind]

theorem relations_congr : relations schema' = relations schema := by
  funext name
  unfold relations
  rw [hfind]

theorem fields_congr : fields schema' = fields schema := by
  funext name
  unfold fields
  rw [hfind]

theorem nested_congr : nested schema' = nested schema := by
  funext name
  unfold nested
  rw [hfind, relations_congr hfind]

theorem treeTo_congr (depth : ℕ) : treeTo schema' depth = treeTo schema depth := by
  induction depth with
  | zero => rfl
  | succ depth ih =>
    have hnode : node schema' depth = node schema depth := by
      funext name visited r
      unfold node
      rw [has_congr hfind, fields_congr hfind, ih]
    funext name visited
    rw [treeTo_succ, treeTo_succ, nested_congr hfind, hnode]

theorem relatedTo_congr (depth : ℕ) : relatedTo schema' depth = relatedTo schema depth := by
  induction depth with
  | zero => rfl
  | succ depth ih =>
    have hvisit : visit schema' depth = visit schema depth := by
      funext studly acc r
      unfold visit
      rw [ih]
    funext name seen
    rw [relatedTo_succ, relatedTo_succ, nested_congr hfind, hvisit]

variable (hlength : schema'.length = schema.length)

include hlength

theorem tree_congr : tree schema' = tree schema := by
  funext name visited
  unfold tree enough
  rw [hlength, treeTo_congr hfind]

theorem related_congr : related schema' = related schema := by
  funext name visited
  unfold related enough
  rw [hlength, relatedTo_congr hfind]

end Resolve

theorem Memory.Faithful.congr (hfind : schema'.find? = schema.find?) (h : m.Faithful schema') :
    m.Faithful schema where
  relations := by
    unfold Schema.relationsOf
    rw [← hfind]
    exact h.relations
  fields := by
    unfold Schema.definitionsOf
    rw [← hfind]
    exact h.fields
  given := by
    unfold Schema.complaintsOf
    rw [← hfind]
    exact h.given
  nodup := h.nodup

theorem Settles.congr {x : ExceptT ε (StateM Memory) α} {result : Except ε α}
    {messages : List String} (hfind : schema'.find? = schema.find?)
    (h : Settles schema x result messages) : Settles schema' x result messages := by
  intro m hm
  apply (h m (hm.congr hfind)).mono
  · intro a t ⟨ha, hwarned, ht⟩
    exact ⟨ha, hwarned, ht.congr hfind.symm⟩
  · intro e t ⟨he, hwarned, ht⟩
    exact ⟨he, hwarned, ht.congr hfind.symm⟩

/-! ## Configurations -/

namespace Configuration

theorem oblivious_build (schema : Schema) (name : String) (e : Entity) :
    Oblivious schema (build schema name e) := by
  unfold build
  apply ((Resolve.oblivious_treeTo schema _ _ _).adapt _).bind
  intro nested
  rcases Field.parseAll e.fields with reason | fields
  · exact oblivious_throw schema _
  · apply ((Resolve.settles_relations schema _).oblivious.adapt _).bind
    intro relations
    rcases Toggles.resolve e.generate e.generateExcept with reason | toggles
    · exact oblivious_throw schema _
    · exact oblivious_pure schema _

theorem build_congr (hfind : schema'.find? = schema.find?)
    (hlength : schema'.length = schema.length) : build schema' = build schema := by
  funext name e
  unfold build
  rw [Resolve.tree_congr hfind hlength, Resolve.relations_congr hfind]

variable {cs : List Configuration} {memory : Memory}

theorem map_originalName {raw : Value} (haccepted : schema.Accepted raw)
    (hbuilt : (buildAll schema).run.run Memory.empty = (.ok cs, memory)) :
    cs.map (·.originalName) = schema.map Prod.fst := by
  have hends := (ends_of_run_ok hbuilt).1 (ends_buildAll haccepted (Memory.sound_empty schema))
  apply map_eq_map_of_forall₂
  exact hends.1.flip.imp fun c e hc ↦ hc.2.originalName

/-- Entities in another order have the same configurations in that order. -/
theorem exists_buildAll_perm (hfind : schema'.find? = schema.find?) (hperm : schema'.Perm schema)
    (hbuilt : (buildAll schema).run.run Memory.empty = (.ok cs, memory)) :
    ∃ cs' memory', (buildAll schema').run.run Memory.empty = (.ok cs', memory') ∧ cs'.Perm cs ∧
      memory.Faithful schema ∧ memory'.Faithful schema := by
  have hoblivious (e : String × Entity) := oblivious_build schema e.1 e.2
  have hempty := Memory.faithful_empty schema
  obtain ⟨messages, hall⟩ := Oblivious.settles_mapM (l := schema) fun e _ ↦ hoblivious e
  obtain ⟨messages', hall'⟩ := Oblivious.settles_mapM (l := schema') fun e _ ↦ hoblivious e
  obtain ⟨hresult, -, hfaithful⟩ := hall.run_eq hempty
  obtain ⟨hresult', -, hfaithful'⟩ := hall'.run_eq hempty
  replace hbuilt : (schema.mapM fun e ↦ build schema e.1 e.2).run.run Memory.empty =
      (.ok cs, memory) := hbuilt
  rw [hbuilt] at hresult hfaithful
  have heach := mapM_eq_ok_iff.1 hresult.symm
  obtain ⟨cs', heach', hcs⟩ := List.perm_comp_forall₂ hperm heach
  rw [mapM_eq_ok_iff.2 heach'] at hresult'
  refine ⟨cs', _, Prod.ext ?_ rfl, hcs, hfaithful, ?_⟩
  · unfold buildAll
    rw [build_congr hfind hperm.length_eq]
    exact hresult'
  · unfold buildAll
    rw [build_congr hfind hperm.length_eq]
    exact hfaithful'

end Configuration

end Scaffold
