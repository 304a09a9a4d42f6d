import Mathlib
import Scaffold.Proofs.Name.Ending
import Scaffold.Proofs.Relation.Lines

/-!
# Relations have names

A relation is only read if its target has a letter or a digit. Then it has a name as well: the
alias that is written, or the target, or the plural of the target, which has a letter too.
-/

namespace Scaffold

namespace Name

/-- Some word can be read from the name. -/
def HasWord (name : String) : Prop := ∃ c ∈ name.toList, c.isAlphanum = true

instance : DecidablePred HasWord := fun name ↦
  decidable_of_iff (name.toList.any Char.isAlphanum = true) (by simp [HasWord])

theorem recase_eq_nil_iff (before : Option Char) (l : List Char) :
    recase before l = [] ↔ ∀ c ∈ l, c.isAlphanum = false := by
  induction l generalizing before with
  | nil => simp [recase]
  | cons c rest ih => by_cases hc : c.isAlphanum <;> simp [recase, hc, ih]

theorem studly_ne_empty_iff {name : String} : studly name ≠ "" ↔ HasWord name := by
  rw [ne_eq, ← String.toList_eq_nil_iff, toList_studly, recase_eq_nil_iff, HasWord]
  simp

theorem hasWord_studly {name : String} (h : studly name ≠ "") : HasWord (studly name) := by
  obtain ⟨c, rest, hchars⟩ := List.exists_cons_of_ne_nil (mt String.toList_eq_nil_iff.1 h)
  have hmem : c ∈ (studly name).toList := by simp [hchars]
  exact ⟨c, hmem, isAlphanum_of_mem_studly c hmem⟩

theorem camel_ne_empty {name : String} (h : HasWord name) : camel name ≠ "" := by
  have hstudly : (studly name).toList ≠ [] :=
    mt String.toList_eq_nil_iff.1 (studly_ne_empty_iff.2 h)
  rw [camel, uncapitalize, ne_eq, ← String.toList_eq_nil_iff, String.toList_ofList]
  cases hchars : (studly name).toList with
  | nil => exact absurd hchars hstudly
  | cons c rest => simp [uncapitalizeChars]

theorem hasWord_append_right {name ending : String} (h : HasWord ending) :
    HasWord (name ++ ending) := by
  obtain ⟨c, hc, hword⟩ := h
  exact ⟨c, by simp [hc], hword⟩

/-- Irregular plurals are words, also with a capital. -/
theorem hasWord_irregularNouns :
    ∀ e ∈ irregularNouns, HasWord e.2 ∧ HasWord (capitalize e.2) := by
  decide

theorem hasWord_matchCase {word many : String} (h : irregularPlural? word = some many)
    (model : String) : HasWord (matchCase model many) := by
  obtain ⟨hsmall, hcapital⟩ := hasWord_irregularNouns _ (mem_of_irregularPlural? h)
  rw [matchCase]
  cases model.toList with
  | nil => exact hsmall
  | cons c rest =>
    dsimp only
    split
    · exact hcapital
    · exact hsmall

/-- A name that can be read has a plural that can be read. -/
theorem HasWord.plural {name : String} (h : HasWord name) : HasWord (plural name) := by
  have hne : (name == "") = false := by
    rw [beq_eq_false_iff_ne]
    rintro rfl
    obtain ⟨c, hc, -⟩ := h
    cases hc
  have hadd (before ending : String) (hending : HasWord ending) : HasWord (before ++ ending) :=
    hasWord_append_right hending
  rw [Name.plural, hne]
  simp only [Bool.false_eq_true, if_false]
  rcases hmany : irregularPlural? (Text.lower (lastWord name).2) with - | many
  · dsimp only
    split_ifs
    · exact h
    · exact hadd name "es" (by decide)
    · exact h
    · exact hadd _ "ies" (by decide)
    · exact hadd _ "ves" (by decide)
    · exact hadd _ "ves" (by decide)
    · exact hadd name "s" (by decide)
  · exact hadd _ _ (hasWord_matchCase hmany _)

end Name

namespace Relation

/-- The relation has a name and a target. -/
structure IsNamed (r : Relation) : Prop where
  name : r.name ≠ ""
  target : r.target ≠ ""

theorem defaultName_ne_empty (kind : RelationKind) {target : String}
    (h : Name.HasWord target) : defaultName kind target ≠ "" := by
  rw [defaultName]
  split
  · exact Name.camel_ne_empty h.plural
  · exact Name.camel_ne_empty h

theorem isNamed_of_ofItem? {kind : RelationKind} {entry : String} {r : Relation}
    (h : ofItem? kind entry = some r) : r.IsNamed := by
  simp only [ofItem?, beq_iff_eq, Option.ite_none_left_eq_some, Option.some.injEq] at h
  generalize htarget : Name.studly (Text.strip (Text.cutFirst ':' entry).1) = target at h
  generalize Text.strip (Text.cutFirst ':' entry).2 = written at h
  obtain ⟨hne, rfl⟩ := h
  have hword : Name.HasWord target := by
    subst htarget
    exact Name.hasWord_studly hne
  refine ⟨?_, hne⟩
  by_cases hwritten : written = ""
  · simpa [hwritten] using defaultName_ne_empty kind hword
  · simp [hwritten]

theorem isNamed_of_mem_readAll (owner : String) (block : List (String × Targets)) :
    ∀ r ∈ (readAll owner block).1, r.IsNamed :=
  forall_mem_readAll (fun _ _ _ h ↦ isNamed_of_ofItem? h) owner block

end Relation

end Scaffold
