import Mathlib
import Scaffold.Code.Sample
import Scaffold.Proofs.Configuration.Relations
import Scaffold.Proofs.Name.Table

/-!
# Factories of foreign keys

The factory of an entity calls, for a foreign key, the factory of the model behind the referenced
table. The model is guessed from the table by singular and studly case. `faker_eq_iff` says for which
entities the guess is the entity whose table it is.
-/

namespace Scaffold

namespace Field

theorem factoryCall_eq_iff {table model : String} :
    factoryCall table = s!"\\App\\Models\\{model}::factory()" ↔
      Name.studly (Name.singular table) = model := by
  unfold factoryCall
  constructor
  · intro h
    have hsame : toString (Name.studly (Name.singular table)) = toString model := by simpa using h
    exact hsame
  · intro h
    rw [h]

theorem sample_of_references {f : Field} (hforeign : f.isForeignId = true) {table : String}
    (htable : f.references = some table) :
    f.sample.faker = if table == "" then "1" else factoryCall table := by
  unfold sample
  rw [hforeign, htable]
  simp only [if_true]
  split <;> rfl

theorem one_ne_call (model : String) : "1" ≠ s!"\\App\\Models\\{model}::factory()" := by
  intro h
  have hfirst := congrArg (fun s : String ↦ s.toList.head?) h
  have hslash : (toString "\\App\\Models\\").toList.head? = some '\\' := by decide
  simp only [String.toList_append, List.head?_append, hslash, Option.some_or] at hfirst
  exact absurd hfirst (by decide)

/-- A foreign key to the table of an entity calls the factory of that entity exactly if the last
word of its name is the singular of its plural. An entity without a name has no table. -/
theorem faker_eq_iff {c : Configuration} (hstable : Name.studly c.studly = c.studly) {f : Field}
    (hforeign : f.isForeignId = true) (htable : f.references = some c.table) :
    f.sample.faker = s!"\\App\\Models\\{c.studly}::factory()" ↔
      c.studly ≠ "" ∧
        Name.returnsFromPlural (Text.lower (Name.lastWord c.studly).2) = true := by
  rw [sample_of_references hforeign htable, Configuration.table]
  by_cases htext : Name.table c.studly = ""
  · rw [htext]
    apply iff_of_false (one_ne_call _)
    intro h
    have hback := (Name.studly_singular_table_iff hstable h.1).2 h.2
    rw [htext] at hback
    exact h.1 hback.symm
  · have hne : c.studly ≠ "" := by
      intro hempty
      rw [hempty] at htext
      exact htext rfl
    rw [beq_eq_false_iff_ne.2 htext]
    simp only [Bool.false_eq_true, if_false]
    rw [factoryCall_eq_iff, Name.studly_singular_table_iff hstable hne]
    exact (and_iff_right hne).symm

/-- Reviews of movies. -/
def reviewsEntries : List (Value × Value) :=
  [(.text "Movie", .map [(.text "fields", .map [(.text "title", .text "string")])]),
    (.text "Review", .map [(.text "fields", .map [(.text "movie_id", .text "foreignId:movies")])])]

def reviews : Schema :=
  [("Movie", ⟨[("title", "string")], [], [], .unset, [], [], []⟩),
    ("Review", ⟨[("movie_id", "foreignId:movies")], [], [], .unset, [], [], []⟩)]

/-- The factory of reviews calls that of a model that does not exist. -/
theorem reviews_faker_ne :
    Schema.Accepted (.map reviewsEntries) reviews ∧
      ∃ cs t, (Configuration.buildAll reviews).run.run Memory.empty = (.ok cs, t) ∧
        ∃ movie ∈ cs, ∃ review ∈ cs, ∃ f ∈ review.fields,
          Name.studly movie.studly = movie.studly ∧ f.isForeignId = true ∧
          f.references = some movie.table ∧
          f.sample.faker ≠ s!"\\App\\Models\\{movie.studly}::factory()" := by
  refine ⟨⟨by decide +kernel, reviewsEntries, rfl, rfl⟩, ?_⟩
  obtain ⟨cs, t, hrun, htest⟩ := exists_run_of_passes (Configuration.buildAll reviews) Memory.empty
    (fun cs _ ↦ cs.any fun movie : Configuration ↦ cs.any fun review : Configuration ↦
      review.fields.any fun f ↦ decide (movie.studly = "Movie" ∧ f.isForeignId = true ∧
        f.references = some movie.table)) (by decide +kernel)
  obtain ⟨movie, hmovie, htest⟩ := List.any_eq_true.1 htest
  obtain ⟨review, hreview, htest⟩ := List.any_eq_true.1 htest
  obtain ⟨f, hf, htest⟩ := List.any_eq_true.1 htest
  obtain ⟨hname, hforeign, htable⟩ := of_decide_eq_true htest
  have hstable : Name.studly movie.studly = movie.studly := by
    rw [hname]
    decide
  refine ⟨cs, t, hrun, movie, hmovie, review, hreview, f, hf, hstable, hforeign, htable, ?_⟩
  rw [ne_eq, faker_eq_iff hstable hforeign htable, hname]
  decide +kernel

end Field

end Scaffold
