import Mathlib
import Scaffold.Proofs.Field.Numeral
import Scaffold.Proofs.Text.Endings
import Scaffold.Proofs.Text.Quoted
import Scaffold.Proofs.Text.Trimming

/-!
# Defaults as literals

A folded default such as `default:0` becomes a clause with a literal: a keyword or a number as it
was written, anything else between quotes. The literal stands for the value exactly if a number has
ASCII digits only, and a text nothing that would have to be escaped (`exists_defaultClause_eq`).
-/

namespace Scaffold.Field

open Text

/-! ## The value of a folded default -/

/-- The value that is written: no blanks are left around it, and no colons around that. -/
def givenValue (value : String) : String :=
  String.ofList (trim isBlank (trim (· == ':') (trim isBlank (':' :: value.toList))))

theorem trim_colon_cons (l : List Char) : trim (· == ':') (':' :: l) = trim (· == ':') l := by
  simp [trim, trimStart]

theorem trim_blank_cons {l : List Char} (h : trim isBlank l = l) :
    trim isBlank (':' :: l) = ':' :: l := by
  rw [trim_eq_self_iff] at h ⊢
  refine ⟨by simp; decide, ?_⟩
  cases l with
  | nil => simp; decide
  | cons c rest => simpa [List.getLast?_cons_cons] using h.2

/-- A value is written as it is given, unless blanks or colons stand around it. -/
theorem givenValue_eq_self_iff {value : String} :
    givenValue value = value ↔
      trim isBlank value.toList = value.toList ∧ trim (· == ':') value.toList = value.toList := by
  rw [← String.toList_inj, givenValue, String.toList_ofList]
  generalize value.toList = l
  have hblank (h : trim isBlank l = l) :
      trim isBlank (trim (· == ':') (trim isBlank (':' :: l))) =
        trim isBlank (trim (· == ':') l) := by
    rw [trim_blank_cons h, trim_colon_cons]
  constructor
  · intro h
    have hstrip : trim isBlank l = l := by rw [← h, trim_trim]
    refine ⟨hstrip, (trim_isInfix _ l).eq_of_length_le ?_⟩
    rw [hblank hstrip] at h
    calc l.length = (trim isBlank (trim (· == ':') l)).length := by rw [h]
      _ ≤ (trim (· == ':') l).length := (trim_isInfix _ _).length_le
  · rintro ⟨hstrip, hcolon⟩
    rw [hblank hstrip, hcolon, hstrip]

/-- The value without the quotes around it. -/
def unquoted (value : String) : List Char := trim (fun c ↦ c == '\'' || c == '\"') value.toList

/-! ## Literals -/

/-- The words that are literals themselves. -/
def keywords : List String := ["null", "true", "false"]

/-- A literal that a value may be written as. -/
@[mk_iff]
inductive IsLiteralOf (value : String) : String → Prop
  | keyword {literal : String} (h : lower literal = lower value) (hword : lower value ∈ keywords) :
      IsLiteralOf value literal
  | number (h : IsNumeral Char.isDigit value.toList) : IsLiteralOf value value
  | quoted {literal : String} (h : readQuoted literal.toList = some (unquoted value, [])) :
      IsLiteralOf value literal

theorem not_isNumeral_of_readQuoted {l : List Char} {result : List Char × List Char}
    (h : readQuoted l = some result) : ¬IsNumeral isDecimalDigit l := by
  intro hnumeral
  have hquote : '\'' ∉ l := fun hmem ↦ absurd (hnumeral.mem '\'' hmem) (by decide)
  cases l with
  | nil => cases h
  | cons c rest =>
    have hc : c ≠ '\'' := fun hc ↦ hquote (by simp [hc])
    rw [readQuoted] at h
    · cases h
    · exact fun _ heq ↦ hc (List.cons.inj heq).1

/-- **A folded default as a literal.** The clause of a folded default holds the given value as a
literal exactly if the value is a keyword, a number with ASCII digits only, or no number and a text
that needs no escapes between quotes. The given value is the text after `default:`, unless blanks or
colons stand around that. -/
theorem exists_defaultClause_eq (value : String) :
    (∃ literal, defaultClause ("default:" ++ value) = "->default(" ++ literal ++ ")" ∧
      (IsLiteralOf (givenValue value) literal ↔
        lower (givenValue value) ∈ keywords ∨ IsNumeral Char.isDigit (givenValue value).toList ∨
          ¬IsNumeral isDecimalDigit (givenValue value).toList ∧
            Plain (unquoted (givenValue value)))) ∧
      (givenValue value = value ↔
        trim isBlank value.toList = value.toList ∧ trim (· == ':') value.toList = value.toList) := by
  have hdrop : ("default:" ++ value).toList.drop 7 = ':' :: value.toList := by
    rw [String.toList_append]
    rfl
  have hgiven : trim isBlank (trim (· == ':') (trim isBlank (':' :: value.toList))) =
      (givenValue value).toList := by
    rw [givenValue, String.toList_ofList]
  refine ⟨?_, givenValue_eq_self_iff⟩
  simp only [defaultClause, hdrop, hgiven, String.ofList_toList]
  generalize givenValue value = v
  have hascii (h : IsNumeral Char.isDigit v.toList) : IsNumeral isDecimalDigit v.toList :=
    h.mono fun _ ↦ isDecimalDigit_of_isDigit
  have hother (hnull : ¬(lower v == "null") = true)
      (htruth : ¬(lower v == "true" || lower v == "false") = true) : lower v ∉ keywords := by
    simp only [Bool.or_eq_true, beq_iff_eq, not_or] at hnull htruth
    simp [keywords, hnull, htruth]
  split_ifs with hnull htruth hnumeral
  · have hv : lower v = "null" := by simpa using hnull
    have hword : lower v ∈ keywords := by simp [hv, keywords]
    refine ⟨"null", rfl, iff_of_true (.keyword ?_ hword) (.inl hword)⟩
    rw [hv]
    decide
  · have hv : lower v = "true" ∨ lower v = "false" := by simpa using htruth
    have hword : lower v ∈ keywords := by rcases hv with hv | hv <;> simp [hv, keywords]
    exact ⟨v, rfl, iff_of_true (.keyword rfl hword) (.inl hword)⟩
  · have hword := hother hnull htruth
    have hdecimal := isNumeral_iff.1 hnumeral
    refine ⟨v, rfl, ?_⟩
    rw [isLiteralOf_iff]
    have hquoted : readQuoted v.toList ≠ some (unquoted v, []) :=
      fun h ↦ not_isNumeral_of_readQuoted h hdecimal
    simp [hword, hdecimal, hquoted]
  · have hword := hother hnull htruth
    have hdecimal := mt isNumeral_iff.2 hnumeral
    refine ⟨"'" ++ String.ofList (unquoted v) ++ "'", ?_, ?_⟩
    · have htext (s : String) : toString s = s := rfl
      rw [← String.toList_inj]
      simp [unquoted, htext]
    have hread : readQuoted ("'" ++ String.ofList (unquoted v) ++ "'").toList =
        readBody (unquoted v ++ ['\'']) := by
      simp [readQuoted]
    rw [isLiteralOf_iff, hread, readBody_append_quote_iff]
    simp [hword, hdecimal, mt hascii hdecimal]

example : defaultClause "default:it's" = "->default('it's')" := by decide

end Scaffold.Field
