import Mathlib
import Scaffold.Text.Pieces

/-!
# The endings of texts

What a text ends with, and the text without its last characters.
-/

namespace Scaffold

theorem endsWith_iff {s ending : String} :
    Text.endsWith s ending = true ↔ ending.toList <:+ s.toList := by
  rw [Text.endsWith, List.isPrefixOf_iff_prefix, List.reverse_prefix]

namespace Text

theorem exists_append_of_endsWith {s ending : String} (h : endsWith s ending = true) :
    ∃ start, s = start ++ ending := by
  obtain ⟨start, hstart⟩ := endsWith_iff.1 h
  refine ⟨String.ofList start, String.toList_injective ?_⟩
  rw [String.toList_append, String.toList_ofList, hstart]

theorem endsWith_append_self (s ending : String) : endsWith (s ++ ending) ending = true := by
  rw [endsWith_iff, String.toList_append]
  exact List.suffix_append _ _

/-- The same text behind two others makes no difference to whether one ends with the other. -/
theorem endsWith_append_append (s ending t : String) :
    endsWith (s ++ t) (ending ++ t) = endsWith s ending := by
  rw [Bool.eq_iff_iff, endsWith_iff, endsWith_iff, String.toList_append, String.toList_append]
  exact List.suffix_append_self_iff

theorem length_le_of_endsWith {s ending : String} (h : endsWith s ending = true) :
    ending.length ≤ s.length := by
  rw [← String.length_toList, ← String.length_toList]
  exact (endsWith_iff.1 h).length_le

theorem toList_dropLastChars (n : ℕ) (s : String) :
    (dropLastChars n s).toList = s.toList.take (s.length - n) := by
  rw [dropLastChars, String.toList_ofList]

theorem dropLastChars_append {n : ℕ} {s t : String} (h : n ≤ t.length) :
    dropLastChars n (s ++ t) = s ++ dropLastChars n t := by
  apply String.toList_injective
  have hlength : (s ++ t).length - n = s.toList.length + (t.length - n) := by
    rw [String.length_append, String.length_toList]
    omega
  rw [toList_dropLastChars, String.toList_append, String.toList_append, toList_dropLastChars,
    hlength, List.take_length_add_append]

/-- As many characters as an ending has are the ending. -/
theorem dropLastChars_append_self (s t : String) : dropLastChars t.length (s ++ t) = s := by
  rw [dropLastChars_append (le_refl _)]
  apply String.toList_injective
  rw [String.toList_append, toList_dropLastChars, Nat.sub_self, List.take_zero, List.append_nil]

theorem length_dropLastChars (n : ℕ) (s : String) :
    (dropLastChars n s).length = s.length - n := by
  rw [← String.length_toList, toList_dropLastChars, List.length_take, String.length_toList]
  omega

theorem toList_lower (s : String) : (lower s).toList = s.toList.map Char.toLower := by
  rw [lower, String.toList_ofList]

theorem length_lower (s : String) : (lower s).length = s.length := by
  rw [← String.length_toList, toList_lower, List.length_map, String.length_toList]

/-- The characters of an ending, small letters or not, stand in the part that has it. -/
theorem dropLastChars_append_of_endsWith {n : ℕ} {s t ending : String}
    (hend : endsWith (lower t) ending = true) (hn : n ≤ ending.length) :
    dropLastChars n (s ++ t) = s ++ dropLastChars n t := by
  apply dropLastChars_append
  have hlength := length_le_of_endsWith hend
  rw [length_lower] at hlength
  omega

theorem lower_append (s t : String) : lower (s ++ t) = lower s ++ lower t := by
  apply String.toList_injective
  simp only [toList_lower, String.toList_append, List.map_append]

theorem lower_dropLastChars (n : ℕ) (s : String) :
    lower (dropLastChars n s) = dropLastChars n (lower s) := by
  apply String.toList_injective
  simp only [toList_lower, toList_dropLastChars, length_lower, List.map_take]

end Text

end Scaffold
