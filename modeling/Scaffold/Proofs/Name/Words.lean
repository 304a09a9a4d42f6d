import Mathlib
import Scaffold.Proofs.Name.Letters
import Scaffold.Proofs.Name.Patterns
import Scaffold.Proofs.Text.Endings

/-!
# The words of any name

The words that four patterns find in a name are runs of letters only or of digits only, and together
they are its letters and digits in order. So is its studly case but for capitals, and names with one
studly case differ in their capitals and separators only (`words_keep_letters`).
-/

namespace Scaffold.Name

open Text

variable {a c : Char} {l run rest : List Char}

/-- Letters only, or digits only. -/
def OfOneKind (run : List Char) : Prop :=
  (∀ c ∈ run, c.isAlpha = true) ∨ ∀ c ∈ run, c.isDigit = true

/-- A digit stays in one word only with a digit. -/
theorem isDigit_of_sameWord (h : sameWord a (c :: rest) = true) (hc : c.isDigit = true) :
    a.isDigit = true := by
  simpa [sameWord, hc, not_isUpper_of_isDigit hc, not_isLower_of_isDigit hc] using h

theorem ofOneKind_singleton (hc : c.isAlphanum = true) : OfOneKind [c] := by
  rw [Char.isAlphanum, Bool.or_eq_true] at hc
  exact hc.imp List.forall_mem_singleton.2 List.forall_mem_singleton.2

theorem OfOneKind.cons (h : OfOneKind (c :: run)) (hjoin : sameWord a (c :: rest) = true) :
    OfOneKind (a :: c :: run) := by
  cases h with
  | inl halpha =>
    have ha := isAlpha_of_sameWord hjoin (halpha c List.mem_cons_self)
    exact .inl (List.forall_mem_cons.2 ⟨ha, halpha⟩)
  | inr hdigit =>
    have ha := isDigit_of_sameWord hjoin (hdigit c List.mem_cons_self)
    exact .inr (List.forall_mem_cons.2 ⟨ha, hdigit⟩)

/-- What joins a word stands in front of the first character of a run, which is of one kind. -/
theorem ofOneKind_of_mem_runs (h : run ∈ runs sameWord l) : OfOneKind run := by
  fun_induction runs sameWord l generalizing run with
  | case1 => cases h
  | case2 a rest ha ih => exact ih h
  | case3 a rest ha hjoin ih =>
    cases rest with
    | nil => cases hjoin
    | cons c more =>
      have hc : c.isAlphanum = true := by
        by_contra hno
        rw [Bool.not_eq_true] at hno
        rw [sameWord_of_not_isAlphanum more hno] at hjoin
        cases hjoin
      obtain ⟨first, rs, hruns⟩ := exists_runs_cons sameWord more hc
      rw [hruns] at h ih
      cases h with
      | head => exact (ih List.mem_cons_self).cons hjoin
      | tail _ hmore => exact ih (List.mem_cons_of_mem _ hmore)
  | case4 a rest ha hjoin ih =>
    cases h with
    | head => exact ofOneKind_singleton (by simpa using ha)
    | tail _ hmore => exact ih hmore

theorem toList_join_words (name : String) :
    (String.join (words name)).toList = smallLetters name.toList := by
  calc (String.join (words name)).toList
      = (runs sameWord name.toList).flatMap fun run ↦ run.map Char.toLower := by
        simp [words, String.toList_join, List.flatMap_map]
    _ = (runs sameWord name.toList).flatten.map Char.toLower := List.map_flatten.symm
    _ = smallLetters name.toList := by rw [flatten_runs, smallLetters]

theorem lower_studly (name : String) : lower (studly name) = String.join (words name) := by
  apply String.toList_injective
  calc (lower (studly name)).toList
      = smallLetters (studly name).toList := by
        rw [toList_lower, smallLetters, List.filter_eq_self.2 isAlphanum_of_mem_studly]
    _ = (String.join (words name)).toList := by rw [smallLetters_studly, toList_join_words]

/-- The words that are found in a name lose and repeat nothing. -/
theorem words_keep_letters (name : String) :
    (words name).map String.toList =
      ((wordsFound name.toList).map fun word ↦ word.map Char.toLower) ∧
    (∀ word ∈ words name, word ≠ "" ∧
      ((∀ c ∈ word.toList, c.isLower = true) ∨ ∀ c ∈ word.toList, c.isDigit = true)) ∧
    (String.join (words name)).toList = smallLetters name.toList ∧
    (∀ c ∈ (studly name).toList, c.isAlphanum = true) ∧
    lower (studly name) = String.join (words name) ∧
    ∀ other, studly other = studly name → smallLetters other.toList = smallLetters name.toList := by
  refine ⟨toList_words_eq_found name, fun word hword ↦ ?_, toList_join_words name,
    isAlphanum_of_mem_studly, lower_studly name, fun other h ↦ ?_⟩
  · obtain ⟨run, hrun, rfl⟩ := List.mem_map.1 hword
    rw [String.toList_ofList, List.forall_mem_map, List.forall_mem_map]
    refine ⟨?_, ?_⟩
    · simpa [← String.toList_inj] using ne_nil_of_mem_runs hrun
    · cases ofOneKind_of_mem_runs hrun with
      | inl halpha => exact .inl fun c hc ↦ by rw [Char.isLower_toLower_eq_isAlpha, halpha c hc]
      | inr hdigit => exact .inr fun c hc ↦ by rw [toLower_of_isDigit (hdigit c hc), hdigit c hc]
  · rw [← smallLetters_studly other, h, smallLetters_studly name]

theorem serverName_keeps_letters :
    ("server" ∈ words "HTTPServer2Go" ∧ "server" ≠ "") ∧
    studly "http-server2 go" = studly "HTTPServer2Go" ∧
    smallLetters "http-server2 go".toList = smallLetters "HTTPServer2Go".toList := by
  obtain ⟨-, hwords, -, -, -, hshared⟩ := words_keep_letters "HTTPServer2Go"
  have hserver : "server" ∈ words "HTTPServer2Go" := by decide
  have hstudly : studly "http-server2 go" = studly "HTTPServer2Go" := by decide
  exact ⟨⟨hserver, (hwords _ hserver).1⟩, hstudly, hshared _ hstudly⟩

end Scaffold.Name
