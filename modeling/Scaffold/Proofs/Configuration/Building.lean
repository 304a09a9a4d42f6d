import Scaffold.Proofs.Configuration.Relations

/-!
# Schemas that can be worked out

If all entities of an accepted schema have been worked out, no entity is reached from itself past
the guard. The entities that nested requests lead to can then be collected as well, from every name.
-/

open Relation (TransGen)

namespace Scaffold

namespace Resolve

variable {schema : Schema} {m : Memory}

theorem ends_related (hloops : ∀ a, ¬TransGen schema.Slips a a) (name : String)
    (h : m.Sound schema) :
    Ends (related schema name []) m (fun _ t ↦ t.Sound schema) fun _ _ ↦ False := by
  rw [related, ends_bind]
  refine (ends_relatedTo (enough schema) name [] h).mono
    (fun _ t ht ↦ (ends_pure _).2 ht.2) fun _ _ hbad ↦ ?_
  have hunmet := schema.unmet_le [Name.studly name]
  have hrank := schema.rank_le (Name.studly name)
  have hcard := schema.card_defined_le
  have hbound : schema.unmet [Name.studly name] * (schema.defined.card + 1) +
      schema.rank (Name.studly name) + 1 < enough schema := by
    rw [enough]
    nlinarith
  obtain ⟨depth, hdepth⟩ := Nat.exists_eq_succ_of_ne_zero (show enough schema ≠ 0 by omega)
  have hexceeds := hbad.2
  rw [hdepth] at hexceeds
  have := (Schema.falls_rank hloops).le_of_descends hexceeds.2
  omega

end Resolve

namespace Configuration

open Schema

variable {raw : Value} {schema : Schema} {m : Memory}

/-- No loop gets past the guard if every tree has an end. -/
theorem no_loop {n : ℕ} (h : ∀ e ∈ schema, ¬schema.Descends n (Name.studly e.1) []) :
    ∀ a, ¬TransGen schema.Slips a a := by
  intro a hloop
  obtain ⟨b, -, r, hr, -, hhas, -, ha⟩ := TransGen.tail'_iff.1 hloop
  obtain ⟨e, he, hname⟩ := has_iff.1 hhas
  have hstable : Stable [Name.studly r.target] :=
    Stable.cons (List.forall_mem_nil _) (spelled_of_mem_requests hr) rfl
  have hagain : Name.studly (Name.studly e.1) = a := by
    rw [hname, ha]
    exact hstable _ (by simp)
  refine h e he (descends_of_loop n hloop hagain ?_)
  rw [hagain, ha]
  exact hstable

variable {cs : List Configuration} {memory : Memory}

/-- What is known of an accepted schema that has been worked out. -/
structure Built (schema : Schema) (cs : List Configuration) (memory : Memory) : Prop where
  studly : cs.map (·.studly) = schema.map fun e ↦ Name.studly e.1
  nodup : (cs.map (·.studly)).Nodup
  no_loop : ∀ a, ¬TransGen schema.Slips a a
  sound : memory.Sound schema

theorem built (haccepted : Accepted raw schema)
    (h : (buildAll schema).run.run Memory.empty = (.ok cs, memory)) : Built schema cs memory := by
  have hends := (ends_of_run_ok h).1
    (ends_buildAll haccepted (Memory.sound_empty schema))
  have hstudly : cs.map (·.studly) = schema.map fun e ↦ Name.studly e.1 :=
    map_eq_map_of_forall₂ (hends.1.flip.imp fun _ _ hc ↦ hc.2.studly)
  refine ⟨hstudly, hstudly ▸ haccepted.keys.2, no_loop (n := Resolve.enough schema) ?_, hends.2⟩
  intro e he
  obtain ⟨c, -, hc⟩ := exists_of_forall₂_of_mem_right hends.1.flip he
  exact hc.2.not_descends

theorem exists_fromStudly (haccepted : Accepted raw schema)
    (h : (buildAll schema).run.run Memory.empty = (.ok cs, memory)) {c : Configuration}
    (hc : c ∈ cs) : ∃ e ∈ schema, FromStudly schema e c := by
  have hends := (ends_of_run_ok h).1 (ends_buildAll haccepted (Memory.sound_empty schema))
  obtain ⟨e, -, he, hfrom⟩ := exists_of_forall₂_of_mem_right hends.1 hc
  exact ⟨e, he, hfrom⟩

end Configuration

end Scaffold
