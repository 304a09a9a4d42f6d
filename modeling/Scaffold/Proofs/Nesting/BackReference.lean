import Mathlib
import Scaffold.Nesting.Resolver
import Scaffold.Proofs.Name.Snake
import Scaffold.Proofs.Text.Endings

/-!
# Back references

The column that points back at an entity is its name in snake case with `_id` behind it. On a name
that studly case leaves as it is, studly case undoes snake case and camel case, so the table guessed
from the column is the table of the entity (`studly_spellings`).
-/

namespace Scaffold.Name

open Text

variable {name : String}

/-- Studly case undoes camel case on every name that it leaves as it is. -/
theorem studly_camel (h : studly name = name) : studly (camel name) = name := by
  have hfixed : recase none name.toList = name.toList := by rw [← toList_studly, h]
  have hshaped : StudlyShaped none (recase none name.toList) := studlyShaped_recase _ (by simp)
  apply String.toList_injective
  rw [toList_studly, camel, h, uncapitalize, String.toList_ofList]
  cases hchars : name.toList with
  | nil => rfl
  | cons c rest =>
    rw [hfixed, hchars] at hshaped
    obtain ⟨hc, -, hrest⟩ := hshaped
    have hsmall : c.toLower.isAlphanum = true := by rw [isAlphanum_toLower, hc]
    -- The first pass gives `c` as a capital and the rest as it is.
    obtain ⟨hcapital, hsame⟩ : c.toUpper = c ∧ recase (some c) rest = rest := by
      simpa [hchars, recase, hc, staysWith] using hfixed
    -- For what comes after it, the small letter counts as the capital did.
    have hlowered : Lowered (some c) (some c.toLower) :=
      ⟨by simp, by simp⟩
    have htail : recase (some c.toLower) rest = rest := by
      rw [← hsame, recase_recase rest hlowered hrest]
    calc recase none (uncapitalizeChars (c :: rest))
        = c.toLower.toUpper :: recase (some c.toLower) rest := by
          simp [uncapitalizeChars, recase, hsmall, staysWith]
      _ = c :: rest := by rw [Char.toUpper_toLower_eq_toUpper, hcapital, htail]

theorem guessedTable_append_id (stem : String) :
    Field.guessedTable (stem ++ "_id") = table stem := by
  rw [Field.guessedTable, if_pos (endsWith_append_self stem "_id")]
  exact congrArg table (dropLastChars_append_self stem "_id")

/-- The spellings of a name that studly case leaves as it is lead back to the name, and its back
reference leads to its table. -/
theorem studly_spellings (h : studly name = name) :
    studly (snake name) = name ∧ studly (camel name) = name ∧
    ∀ n : NestedRelation, n.parent = name → Field.guessedTable n.backReference = table name := by
  refine ⟨studly_snake h, studly_camel h, ?_⟩
  rintro n rfl
  calc Field.guessedTable n.backReference
      = table (snake n.parent) := guessedTable_append_id (snake n.parent)
    _ = table n.parent := by rw [table, table, studly_snake h, h]

theorem httpX2YAbc_spellings :
    studly "HttpX2YAbc" = "HttpX2YAbc" ∧
    (studly "http_x2_y_abc" = "HttpX2YAbc" ∧ studly "httpX2YAbc" = "HttpX2YAbc" ∧
      Field.guessedTable "http_x2_y_abc_id" = table "HttpX2YAbc") := by
  have hfixed : studly "HttpX2YAbc" = "HttpX2YAbc" := by decide
  have hsnake : snake "HttpX2YAbc" = "http_x2_y_abc" := by decide
  have hcamel : camel "HttpX2YAbc" = "httpX2YAbc" := by decide
  have hall := studly_spellings hfixed
  rw [hsnake, hcamel] at hall
  let pages : NestedRelation := ⟨"HttpX2YAbc", ⟨"pages", .hasMany, "Page"⟩, [], []⟩
  have hback : pages.backReference = "http_x2_y_abc_id" := by decide
  exact ⟨hfixed, hall.1, hall.2.1, hback ▸ hall.2.2 pages rfl⟩

end Scaffold.Name
