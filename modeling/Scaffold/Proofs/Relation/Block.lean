import Mathlib
import Scaffold.Proofs.Relation.Lines
import Scaffold.Proofs.Relation.Naming
import Scaffold.Proofs.Text.Pieces

/-!
# Spellings of a relations block

The targets of a kind may be listed, or separated by commas in one text, or both: only the single
entries count (`Targets.Respelled.entries_eq`). The relations that the entries of a block yield are
put together under their names, so each name keeps the place where it comes first and gets the
relation that comes last (`Collects`).
-/

namespace Scaffold

/-! ## Spellings of targets -/

/-- Two spellings of the same targets: lists are joined by commas, texts are cut at their commas,
with or without blanks and empty parts. -/
inductive Targets.Respelled : Targets → Targets → Prop
  | same (targets : Targets) : Respelled targets targets
  | joined (lines : List String) : Respelled (.listed lines) (.line (",".intercalate lines))
  | parted (text : String) : Respelled (.line text) (.listed (Text.cut ',' text))
  | itemized (text : String) : Respelled (.line text) (.listed (Text.items text))

theorem Targets.Respelled.entries_eq {t u : Targets} (h : t.Respelled u) :
    u.entries = t.entries := by
  cases h with
  | same => rfl
  | joined lines => exact Text.items_intercalate lines
  | parted text => exact Text.flatMap_items_cut text
  | itemized text => exact Text.flatMap_items_items text

namespace Relation

/-! ## Collected relations -/

/-- Relations under their names: each name stands where it is given first, with the relation that is
given last. -/
structure Collects (given relations : List Relation) : Prop where
  names : relations.map (·.name) = (given.map (·.name)).eraseDups
  last : ∀ r ∈ relations, ∃ before after, given = before ++ r :: after ∧
    ∀ s ∈ after, s.name ≠ r.name

theorem collects_foldl_put (given : List Relation) : Collects given (given.foldl put []) := by
  constructor
  · calc (given.foldl put []).map (·.name)
        = (Entries.ofList (byName given)).map Prod.fst := by rw [← byName_collected, keys_byName]
      _ = (given.map (·.name)).eraseDups := by rw [Entries.keys_ofList, keys_byName]
  · intro r hr
    have hmem : (r.name, r) ∈ Entries.ofList (byName given) := by
      rw [← byName_collected]
      exact List.mem_map_of_mem hr
    obtain ⟨before, after, hsplit, hafter⟩ := Entries.exists_of_mem_ofList hmem
    obtain ⟨first, rest, rfl, hfirst, hrest⟩ := List.map_eq_append_iff.1 hsplit
    obtain ⟨s, more, rfl, hs, hmore⟩ := List.map_eq_cons_iff.1 hrest
    obtain rfl : s = r := (Prod.mk.inj hs).2
    refine ⟨first, more, rfl, fun t ht ↦ ?_⟩
    exact hafter (t.name, t) (hmore ▸ List.mem_map_of_mem ht)

theorem find?_of_mem {relations : List Relation} (h : (relations.map (·.name)).Nodup) {r : Relation}
    (hr : r ∈ relations) : find? relations r.name = some r := by
  induction relations with
  | nil => cases hr
  | cons s rest ih =>
    rw [List.map_cons, List.nodup_cons] at h
    rcases List.mem_cons.1 hr with rfl | hr
    · simp [find?]
    · have hne : s.name ≠ r.name := fun heq ↦ h.1 (heq ▸ List.mem_map_of_mem hr)
      rw [find?, List.find?_cons_of_neg (by simpa using hne)]
      exact ih h.2 hr

/-- Other spellings of the targets of a block make no difference, neither to its relations nor to
the messages about it. Its relations are what its entries yield, collected under their names; they
all have names and targets, and kinds that are written in the block. -/
theorem readAll_respelled (owner : String) (block : List (String × Targets)) :
    (∀ block', List.Forall₂ (fun e e' ↦ e'.1 = e.1 ∧ e.2.Respelled e'.2) block block' →
      readAll owner block' = readAll owner block) ∧
    Collects (yielded block) (readAll owner block).1 ∧
    ∀ r ∈ (readAll owner block).1, find? (readAll owner block).1 r.name = some r ∧ r.IsNamed ∧
      ∃ e ∈ block, RelationKind.normalize e.1 = r.kind.name := by
  have hcollects : Collects (yielded block) (readAll owner block).1 := by
    rw [readAll_eq_foldl_put]
    exact collects_foldl_put _
  have hnodup : ((readAll owner block).1.map (·.name)).Nodup := by
    rw [readAll_eq_foldl_put]
    exact nodup_names_collected _
  refine ⟨fun block' h ↦ ?_, hcollects, fun r hr ↦ ⟨find?_of_mem hnodup hr,
    isNamed_of_mem_readAll owner block r hr, ?_⟩⟩
  · exact readAll_eq_of_entries owner (h.imp fun e e' he ↦ ⟨he.1, he.2.entries_eq⟩)
  · obtain ⟨line, hline, hkind, -⟩ :=
      exists_ofItem?_of_mem_yielded (mem_yielded_of_mem_readAll hr)
    exact ⟨line, hline, hkind⟩

/-- Two relations of one name, targets with commas in a list, a target without letters and a kind
that is not known. -/
def shelfBlock : List (String × Targets) :=
  [("has_many", .listed ["Book:books, Review", " -, Tag :"]), ("HasOne", .line "Cover: books"),
    ("owns", .line "Shop")]

theorem readAll_shelfBlock :
    List.Forall₂ (fun e e' ↦ e'.1 = e.1 ∧ e.2.Respelled e'.2) shelfBlock
      [("has_many", .line "Book:books, Review, -, Tag :"), ("HasOne", .listed ["Cover: books"]),
        ("owns", .line "Shop")] ∧
    readAll "Shelf" [("has_many", .line "Book:books, Review, -, Tag :"),
      ("HasOne", .listed ["Cover: books"]), ("owns", .line "Shop")] = readAll "Shelf" shelfBlock ∧
    readAll "Shelf" shelfBlock =
      ([⟨"books", .hasOne, "Cover"⟩, ⟨"reviews", .hasMany, "Review"⟩, ⟨"tags", .hasMany, "Tag"⟩],
        ["Shelf: unknown relation kind 'owns' skipped."]) := by
  have h : List.Forall₂ (fun e e' ↦ e'.1 = e.1 ∧ e.2.Respelled e'.2) shelfBlock
      [("has_many", .line "Book:books, Review, -, Tag :"), ("HasOne", .listed ["Cover: books"]),
        ("owns", .line "Shop")] :=
    .cons ⟨rfl, .joined _⟩ (.cons ⟨rfl, .parted _⟩ (.cons ⟨rfl, .same _⟩ .nil))
  exact ⟨h, (readAll_respelled "Shelf" shelfBlock).1 _ h, by decide +kernel⟩

end Relation

end Scaffold
