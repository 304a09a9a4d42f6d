import Mathlib
import Scaffold.Proofs.Name.Studly

/-!
# The letters of a name

Studly and camel case drop what is neither a letter nor a digit and change the case of letters.
They move and lose nothing else, so a name and its spellings have the same letters when small and
capital ones count as one (`letters_studly`, `letters_camel`). Two texts with different letters are
different, whatever spellings they were put together from.
-/

namespace Scaffold.Name

/-- Letters and digits of a list of characters, letters as small ones. -/
def smallLetters (l : List Char) : List Char := (l.filter Char.isAlphanum).map Char.toLower

/-- The letters and digits of a text, each as often as it occurs and without regard to case. -/
def letters (s : String) : Multiset Char := smallLetters s.toList

@[simp] theorem letters_empty : letters "" = 0 := rfl

theorem smallLetters_append (l m : List Char) :
    smallLetters (l ++ m) = smallLetters l ++ smallLetters m := by
  simp [smallLetters]

@[simp] theorem letters_append (s t : String) : letters (s ++ t) = letters s + letters t := by
  simp [letters, smallLetters_append]

theorem smallLetters_recase (before : Option Char) (l : List Char) :
    smallLetters (recase before l) = smallLetters l := by
  induction l generalizing before with
  | nil => rfl
  | cons c rest ih =>
    by_cases hc : c.isAlphanum
    · have hcase (x : Char) (hx : x = c.toLower ∨ x = c.toUpper) :
          smallLetters (x :: recase (some c) rest) = smallLetters (c :: rest) := by
        have hlower : x.toLower = c.toLower := by rcases hx with rfl | rfl <;> simp
        have halnum : x.isAlphanum := by
          rw [← isAlphanum_toLower, hlower, isAlphanum_toLower, hc]
        simpa [smallLetters, halnum, hc, hlower] using ih (some c)
      simp only [recase, hc, Bool.not_true, Bool.false_eq_true, if_false]
      exact hcase _ (ite_eq_or_eq ..)
    · rw [Bool.not_eq_true] at hc
      simpa [recase, hc, smallLetters] using ih none

theorem smallLetters_studly (name : String) :
    smallLetters (studly name).toList = smallLetters name.toList := by
  rw [toList_studly, smallLetters_recase]

@[simp] theorem letters_studly (name : String) : letters (studly name) = letters name := by
  rw [letters, smallLetters_studly, letters]

theorem smallLetters_uncapitalizeChars (l : List Char) :
    smallLetters (uncapitalizeChars l) = smallLetters l := by
  cases l with
  | nil => rfl
  | cons c rest =>
    simp only [uncapitalizeChars, smallLetters, List.filter_cons, isAlphanum_toLower]
    split <;> simp

@[simp] theorem letters_camel (name : String) : letters (camel name) = letters name := by
  rw [← letters_studly name, camel, uncapitalize, letters, String.toList_ofList,
    smallLetters_uncapitalizeChars, letters]

/-- A name in camel case is made of letters and digits. -/
theorem isAlphanum_of_mem_camel {name : String} :
    ∀ c ∈ (camel name).toList, c.isAlphanum = true := by
  have hstudly : ∀ c ∈ (studly name).toList, c.isAlphanum = true := isAlphanum_of_mem_studly
  rw [camel, uncapitalize, String.toList_ofList]
  cases h : (studly name).toList with
  | nil => simp [uncapitalizeChars]
  | cons c rest =>
    rw [h, List.forall_mem_cons] at hstudly
    exact List.forall_mem_cons.2 ⟨(isAlphanum_toLower c).trans hstudly.1, hstudly.2⟩

end Scaffold.Name
