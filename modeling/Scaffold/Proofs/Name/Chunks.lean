import Mathlib
import Scaffold.Proofs.Name.Patterns

/-!
# Snake case of any name

What the five replacements make of a name is put together from chunks of small letters and digits
with single underscores between them. It keeps the letters and digits of the name in order and is
cut into the same chunks again, so a second application changes nothing (`snake_is_plain`).
-/

namespace Scaffold.Name

open Text

variable {part rest : List Char} {parts : List (List Char)}

/-- Small letters and digits, one at least. -/
def IsChunk (part : List Char) : Prop := part ≠ [] ∧ ∀ c ∈ part, isSmall c = true

/-- The chunks of a name in small letters. -/
def chunks (name : String) : List (List Char) :=
  (runs sameChunk name.toList).map fun run ↦ run.map Char.toLower

theorem toList_snake_eq (name : String) : (snake name).toList = ['_'].intercalate (chunks name) :=
  toList_snake_eq_joined name

theorem isChunk_of_mem_chunks {name : String} (h : part ∈ chunks name) : IsChunk part := by
  obtain ⟨run, hrun, rfl⟩ := List.mem_map.1 h
  refine ⟨by simpa using ne_nil_of_mem_runs hrun, List.forall_mem_map.2 fun c hc ↦ ?_⟩
  exact isSmall_toLower (isAlphanum_of_mem_runs hrun hc)

/-! ## Cutting chunks again -/

/-- Small letters and digits stay together. -/
theorem sameChunk_of_isSmall (a : Char) {c : Char} (h : isSmall c = true) (rest : List Char) :
    sameChunk a (c :: rest) = true := by
  rw [sameChunk, isAlphanum_of_isSmall h, isUpper_eq_false_of_isSmall h]
  rfl

/-- A chunk is cut off where nothing that belongs to a run follows. -/
theorem IsChunk.isRun (h : IsChunk part) (hrest : ∀ c ∈ rest.head?, c.isAlphanum = false) :
    IsRun sameChunk rest part := by
  refine isRun_of_forall h.1 h.2 (fun _ ↦ isAlphanum_of_isSmall)
    (fun a _ more _ hd ↦ sameChunk_of_isSmall a hd more) fun a _ ↦ ?_
  cases rest with
  | nil => rfl
  | cons d rest => rw [sameChunk, hrest d rfl, Bool.false_and]

theorem runs_intercalate (h : ∀ part ∈ parts, IsChunk part) :
    runs sameChunk (['_'].intercalate parts) = parts := by
  induction parts with
  | nil => rfl
  | cons first more ih =>
    rw [List.forall_mem_cons] at h
    cases more with
    | nil =>
      have hlast : IsRun sameChunk [] first := h.1.isRun (by simp)
      simpa [runs] using runs_append hlast
    | cons next more =>
      have hscore : runs sameChunk ('_' :: ['_'].intercalate (next :: more)) =
          runs sameChunk (['_'].intercalate (next :: more)) := runs_cons_of_not_isAlphanum rfl
      rw [List.intercalate_cons_cons, List.append_assoc, List.singleton_append,
        runs_append (h.1.isRun (by simp)), hscore, ih h.2]

theorem chunks_snake (name : String) : chunks (snake name) = chunks name := by
  have hparts : ∀ part ∈ chunks name, IsChunk part := fun _ ↦ isChunk_of_mem_chunks
  calc chunks (snake name)
      = (chunks name).map fun part ↦ part.map Char.toLower := by
        rw [chunks, toList_snake_eq, runs_intercalate hparts]
    _ = (chunks name).map id :=
        List.map_congr_left fun part h ↦ map_toLower_of_isSmall (hparts part h).2
    _ = chunks name := List.map_id _

theorem snake_snake (name : String) : snake (snake name) = snake name := by
  apply String.toList_injective
  rw [toList_snake_eq, toList_snake_eq, chunks_snake]

/-! ## What snake case keeps -/

theorem filter_intercalate (h : ∀ part ∈ parts, '_' ∉ part) :
    (['_'].intercalate parts).filter (· != '_') = parts.flatten := by
  induction parts with
  | nil => rfl
  | cons first more ih =>
    rw [List.forall_mem_cons] at h
    have hfirst : first.filter (· != '_') = first := by
      refine List.filter_eq_self.2 fun c hc ↦ bne_iff_ne.2 ?_
      rintro rfl
      exact h.1 hc
    cases more with
    | nil => simpa using hfirst
    | cons next more =>
      rw [List.intercalate_cons_cons, List.append_assoc, List.singleton_append, List.filter_append,
        hfirst, List.filter_cons_of_neg (by decide), ih h.2]
      rfl

theorem filter_snake (name : String) :
    (snake name).toList.filter (· != '_') = smallLetters name.toList := by
  have hscore : ∀ part ∈ chunks name, '_' ∉ part := fun part hpart hmem ↦
    absurd ((isChunk_of_mem_chunks hpart).2 '_' hmem) (by decide)
  calc (snake name).toList.filter (· != '_')
      = (chunks name).flatten := by rw [toList_snake_eq, filter_intercalate hscore]
    _ = (runs sameChunk name.toList).flatten.map Char.toLower := List.map_flatten.symm
    _ = smallLetters name.toList := by rw [flatten_runs, smallLetters]

/-- Quotes, what stands for something else in a file pattern, the dot and what parts a path. -/
def marks : List Char := ['\'', '"', '*', '?', '[', ']', '.', '/', '\\']

theorem not_mem_marks_of_mem_snake {name : String} {c : Char} (h : c ∈ (snake name).toList) :
    c ∉ marks := by
  intro hmark
  have hnone : ∀ x ∈ marks, x.isAlphanum = false ∧ x ≠ '_' := by simp [marks]
  obtain ⟨hno, hne⟩ := hnone c hmark
  cases isAlphanum_of_mem_snake c h with
  | inl halnum =>
    rw [hno] at halnum
    cases halnum
  | inr hscore => exact hne hscore

/-- Snake case gives small letters and digits in order, with single underscores between them, and
gives them again. -/
theorem snake_is_plain (name : String) :
    (snake name).toList = ((trim (· == '_') (squeezed
      ((partCapitals (partAcronyms name.toList)).map underscored))).map Char.toLower) ∧
    (∃ parts : List String, snake name = "_".intercalate parts ∧ ∀ part ∈ parts,
      part ≠ "" ∧ ∀ c ∈ part.toList, c.isLower = true ∨ c.isDigit = true) ∧
    (∀ c ∈ (snake name).toList, c ∉ marks) ∧
    (snake name).toList.filter (· != '_') = smallLetters name.toList ∧
    snake (snake name) = snake name := by
  refine ⟨toList_snake_eq_rewritten name, ⟨(chunks name).map String.ofList, ?_, ?_⟩,
    fun _ ↦ not_mem_marks_of_mem_snake, filter_snake name, snake_snake name⟩
  · apply String.toList_injective
    simp [toList_snake_eq, String.toList_intercalate, Function.comp_def]
  · refine List.forall_mem_map.2 fun part hpart ↦ ?_
    obtain ⟨hne, hsmall⟩ := isChunk_of_mem_chunks hpart
    refine ⟨by simpa [← String.toList_inj] using hne, fun c hc ↦ ?_⟩
    rw [String.toList_ofList] at hc
    exact Bool.or_eq_true _ _ ▸ hsmall c hc

theorem htmlPage_is_plain :
    snake "*parseHTML__Page2/x.y" = "parse_html_page2_x_y" ∧
    ('y' ∈ "parse_html_page2_x_y".toList ∧ 'y' ∉ marks) ∧
    snake "parse_html_page2_x_y" = "parse_html_page2_x_y" := by
  have hsnake : snake "*parseHTML__Page2/x.y" = "parse_html_page2_x_y" := by decide
  obtain ⟨-, -, hmarks, -, hagain⟩ := snake_is_plain "*parseHTML__Page2/x.y"
  rw [hsnake] at hmarks hagain
  have hy : 'y' ∈ "parse_html_page2_x_y".toList := by decide
  exact ⟨hsnake, ⟨hy, hmarks 'y' hy⟩, hagain⟩

end Scaffold.Name
