import Mathlib
import Scaffold.Text.Quoted

/-!
# Reading single-quoted literals

A single-quoted literal ends at its first quote that is not escaped. In it a backslash before a
quote or a backslash stands for that character; any other backslash stands for itself. What is
written as a literal is read from it (`readQuoted_quoted`), and a text that is put between quotes as
it stands is read back exactly if it has nothing that would have to be escaped (`Plain`).
-/

namespace Scaffold.Text

/-- Reads a literal after its first quote; gives the text and what comes after the literal. -/
def readBody : List Char → Option (List Char × List Char)
  | [] => none
  | '\'' :: rest => some ([], rest)
  | '\\' :: c :: rest =>
    if c == '\\' || c == '\'' then (readBody rest).map fun (s, more) ↦ (c :: s, more)
    else (readBody rest).map fun (s, more) ↦ ('\\' :: c :: s, more)
  | c :: rest => (readBody rest).map fun (s, more) ↦ (c :: s, more)

/-- Reads the single-quoted literal that a text starts with; gives the text that the literal stands
for and what comes after it. -/
def readQuoted : List Char → Option (List Char × List Char)
  | '\'' :: rest => readBody rest
  | _ => none

variable {c : Char} {l rest : List Char}

theorem readBody_cons (hquote : c ≠ '\'') (hslash : c ≠ '\\') (rest : List Char) :
    readBody (c :: rest) = (readBody rest).map fun (s, more) ↦ (c :: s, more) := by
  rw [readBody]
  · exact hquote
  · exact fun _ _ h ↦ absurd h hslash

/-- What is written as a literal is read from it. -/
theorem readQuoted_quoted (s : String) (rest : List Char) :
    readQuoted ((quoted s).toList ++ rest) = some (s.toList, rest) := by
  have hbody (l : List Char) : readBody (escapeQuoted l ++ '\'' :: rest) = some (l, rest) := by
    induction l with
    | nil => rfl
    | cons c more ih =>
      by_cases hc : c = '\\' ∨ c = '\''
      · rcases hc with rfl | rfl <;> simp [escapeQuoted, readBody, ih]
      · rw [not_or] at hc
        have hkept : (c == '\\' || c == '\'') = false := by simpa using hc
        simp only [escapeQuoted, hkept, Bool.false_eq_true, if_false, List.cons_append]
        rw [readBody_cons hc.2 hc.1, ih]
        rfl
  simpa [quoted, readQuoted] using hbody s.toList

/-- A literal is longer than the text that is read from it. -/
theorem length_lt_of_readBody {s more : List Char} (h : readBody l = some (s, more)) :
    s.length + more.length < l.length := by
  fun_induction readBody l generalizing s more with
  | case1 => cases h
  | case2 rest =>
    obtain ⟨rfl, rfl⟩ := Prod.mk.inj (Option.some.inj h)
    simp
  | case3 c rest _ ih | case4 c rest _ ih | case5 c rest _ _ ih =>
    obtain ⟨⟨s', more'⟩, hread, heq⟩ := Option.map_eq_some_iff.1 h
    obtain ⟨rfl, rfl⟩ := Prod.mk.inj heq
    have := ih hread
    simp only [List.length_cons]
    omega

/-! ## Texts that need no escapes -/

/-- The text has no quote, no two backslashes next to each other and no backslash at its end. -/
@[mk_iff]
structure Plain (l : List Char) : Prop where
  quote : '\'' ∉ l
  pair : ¬['\\', '\\'] <:+: l
  last : l.getLast? ≠ some '\\'

theorem plain_cons (hslash : c ≠ '\\') : Plain (c :: rest) ↔ c ≠ '\'' ∧ Plain rest := by
  have hlast : (c :: rest).getLast? = some '\\' ↔ rest.getLast? = some '\\' := by
    cases rest <;> simp [List.getLast?_cons_cons, hslash]
  rw [plain_iff, plain_iff, List.infix_cons_iff, List.cons_prefix_cons, ne_eq, hlast]
  simp [hslash.symm, and_assoc, eq_comm]

theorem plain_slash_cons :
    Plain ('\\' :: c :: rest) ↔ c ≠ '\\' ∧ c ≠ '\'' ∧ Plain rest := by
  rcases eq_or_ne c '\\' with rfl | hslash
  · simp only [ne_eq, not_true_eq_false, false_and, iff_false]
    exact fun h ↦ h.pair ⟨[], rest, rfl⟩
  · have hlast : ('\\' :: c :: rest).getLast? = (c :: rest).getLast? := List.getLast?_cons_cons
    have hrest : Plain ('\\' :: c :: rest) ↔ Plain (c :: rest) := by
      rw [plain_iff, plain_iff, List.infix_cons_iff, List.cons_prefix_cons, hlast]
      simp [hslash.symm]
    rw [hrest, plain_cons hslash]
    simp [hslash]

/-- Between quotes as it stands, a text is read back exactly if it needs no escapes. -/
theorem readBody_append_quote_iff : readBody (l ++ ['\'']) = some (l, []) ↔ Plain l := by
  fun_induction readBody l with
  | case1 => exact iff_of_true rfl ⟨by simp, by simp, by simp⟩
  | case2 rest =>
    refine iff_of_false (fun h ↦ ?_) fun h ↦ h.quote (by simp)
    have := (Prod.mk.inj (Option.some.inj h)).1
    simp at this
  | case3 c rest hc ih =>
    -- The escape takes a character away, and what follows cannot make up for it.
    refine iff_of_false (fun h ↦ ?_) fun h ↦ ?_
    · rw [List.cons_append, List.cons_append, readBody, if_pos hc] at h
      obtain ⟨⟨s, more⟩, hread, heq⟩ := Option.map_eq_some_iff.1 h
      have hlength := length_lt_of_readBody hread
      have hs := congrArg List.length (Prod.mk.inj heq).1
      simp only [List.length_append, List.length_cons, List.length_nil] at hlength hs
      omega
    · have := plain_slash_cons.1 h
      simp_all
  | case4 c rest hc ih =>
    have hc' : c ≠ '\\' ∧ c ≠ '\'' := by simpa using hc
    rw [List.cons_append, List.cons_append, readBody, if_neg hc, plain_slash_cons, ← ih]
    simp [hc']
  | case5 c rest hquote hslash ih =>
    rcases eq_or_ne c '\\' with rfl | hc
    · cases rest with
      | nil => exact iff_of_false (by simp [readBody]) fun h ↦ h.last rfl
      | cons d more => exact absurd rfl (hslash d more rfl)
    · have hquote' : c ≠ '\'' := hquote
      rw [List.cons_append, readBody_cons hquote' hc, plain_cons hc, ← ih]
      simp [hquote']

end Scaffold.Text
