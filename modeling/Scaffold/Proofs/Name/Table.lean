import Mathlib
import Scaffold.Proofs.Name.Singular

/-!
# Tables and the names they stand for

The table of an entity is the plural of its name in snake case. The singular of the table in studly
case is the name again exactly if the last word of the name is the singular of its plural
(`studly_singular_table_iff`): snake case keeps the words before it, and no other text in small
letters behind them has the same studly case.
-/

namespace Scaffold.Name

open Text

/-! ## Names that end with a word -/

/-- Letters and digits are small, or there is a last capital among them. -/
theorem exists_last_capital {l : List Char} (h : ∀ c ∈ l, c.isAlphanum = true) :
    (∀ c ∈ l, isSmall c = true) ∨ ∃ before c small, l = before ++ c :: small ∧
      c.isUpper = true ∧ ∀ x ∈ small, isSmall x = true := by
  induction l with
  | nil => exact .inl (List.forall_mem_nil _)
  | cons c rest ih =>
    rw [List.forall_mem_cons] at h
    rcases ih h.2 with hsmall | ⟨before, d, small, hrest, hd, hsmall⟩
    · rcases isUpper_or_isLower_or_isDigit h.1 with hup | hlow | hdigit
      · exact .inr ⟨[], c, rest, rfl, hup, hsmall⟩
      · exact .inl (List.forall_mem_cons.2 ⟨isSmall_of_isLower hlow, hsmall⟩)
      · exact .inl (List.forall_mem_cons.2 ⟨by rw [isSmall, hdigit, Bool.or_true], hsmall⟩)
    · exact .inr ⟨c :: before, d, small, by rw [hrest, List.cons_append], hd, hsmall⟩

/-- A settled name ends with a word, and this has a capital or is the whole name. -/
theorem Settled.exists_endWord {name : String} (h : Settled none name.toList) (hne : name ≠ "") :
    ∃ before word, name = before ++ word ∧ EndWord before.toList word.toList ∧
      (∀ c ∈ before.toList, c.isAlphanum = true) ∧
      startsLower word.toList = false := by
  rcases exists_last_capital h.isAlphanum with hsmall | ⟨before, c, small, hname, hc, hsmall⟩
  · refine ⟨"", name, by rw [String.empty_append], endWord_of_isSmall hne hsmall,
      List.forall_mem_nil _, ?_⟩
    cases hchars : name.toList with
    | nil => rfl
    | cons c rest =>
      rw [hchars] at h
      by_contra hlow
      obtain ⟨a, ha, -⟩ := h.2.1 (by simpa [startsLower] using hlow)
      cases ha
  · have hsettled := h
    rw [hname] at hsettled
    have hright := hsettled.right
    refine ⟨String.ofList before, String.ofList (c :: small), ?_, ?_, ?_, ?_⟩
    · apply String.toList_injective
      rw [hname, String.toList_append, String.toList_ofList, String.toList_ofList]
    · rw [String.toList_ofList, String.toList_ofList]
      apply EndWord.capital hc _ hsmall
      intro a ha hup
      rw [Option.or_none] at hright
      exact hright.2.2.1 hc ⟨a, ha, hup⟩
    · rw [String.toList_ofList]
      intro x hx
      exact hsettled.isAlphanum x (List.mem_append_left _ hx)
    · rw [String.toList_ofList]
      simpa [startsLower] using Char.not_isLower_of_isUpper hc

/-- What stands before the last word in snake case. -/
def chunksBefore (before : List Char) : List Char :=
  if before = [] then [] else chunked none before ++ ['_']

theorem getLast?_chunksBefore (before : List Char) : ∀ a ∈ (chunksBefore before).getLast?, a = '_' := by
  intro a ha
  unfold chunksBefore at ha
  split at ha
  · cases ha
  · rw [List.getLast?_concat] at ha
    exact (Option.some.inj ha).symm

/-- Snake case puts the small letters of the last word behind what stands before it. -/
theorem snake_append {before word : String} (halnum : ∀ c ∈ before.toList, c.isAlphanum = true)
    (h : EndWord before.toList word.toList) :
    snake (before ++ word) = String.ofList (chunksBefore before.toList) ++ lower word := by
  have hall : ∀ c ∈ (before ++ word).toList, c.isAlphanum = true := by
    rw [String.toList_append, List.forall_mem_append]
    exact ⟨halnum, h.isAlphanum⟩
  apply String.toList_injective
  rw [toList_snake hall, String.toList_append, String.toList_append, String.toList_ofList,
    toList_lower]
  generalize before.toList = before at h halnum
  generalize word.toList = word at h
  unfold chunksBefore
  cases h with
  | bare hbefore _ hsmall =>
    have hnil : before = [] := by
      rw [← List.getLast?_eq_none_iff]
      cases hlast : before.getLast? with
      | none => rfl
      | some a =>
        have ha := halnum a (List.mem_of_getLast? hlast)
        rw [hbefore a hlast] at ha
        cases ha
    rw [hnil, if_pos rfl, map_toLower_of_isSmall hsmall]
    exact chunked_of_isSmall hsmall none
  | capital hc hbefore hsmall =>
    rename_i small c
    have hlow : startsLower (c :: small) = false := by
      simpa [startsLower] using Char.not_isLower_of_isUpper hc
    rw [chunked_append hlow, Option.or_none, chunked_capital hc hsmall hbefore, List.map_cons,
      map_toLower_of_isSmall hsmall]
    by_cases hnil : before = []
    · rw [hnil]
      rfl
    · have hsome : before.getLast?.isSome = true := by
        rw [List.getLast?_isSome]
        exact hnil
      rw [hsome, if_pos rfl, if_neg hnil, List.append_assoc]

/-! ## The singular of a table -/

theorem smallLetters_of_isSmall {l : List Char} (h : ∀ c ∈ l, isSmall c = true) :
    smallLetters l = l := by
  have hfilter : l.filter Char.isAlphanum = l := by
    rw [List.filter_eq_self]
    intro c hc
    exact isAlphanum_of_isSmall (h c hc)
  unfold smallLetters
  rw [hfilter, map_toLower_of_isSmall h]

/-- Behind the same text, words in small letters with the same studly case are the same. -/
theorem eq_of_studly_append {start word word' : String}
    (hsmall : ∀ c ∈ word.toList, isSmall c = true) (hsmall' : ∀ c ∈ word'.toList, isSmall c = true)
    (h : studly (start ++ word) = studly (start ++ word')) : word = word' := by
  have hletters := congrArg (fun s : String ↦ smallLetters s.toList) h
  simp only [smallLetters_studly, String.toList_append, smallLetters_append,
    smallLetters_of_isSmall hsmall, smallLetters_of_isSmall hsmall'] at hletters
  exact String.toList_injective (List.append_cancel_left hletters)

theorem isSmall_dropLastChars {word : String} (n : ℕ) (h : ∀ c ∈ word.toList, isSmall c = true) :
    ∀ c ∈ (dropLastChars n word).toList, isSmall c = true := by
  rw [toList_dropLastChars]
  intro c hc
  exact h c (List.mem_of_mem_take hc)

theorem isSmall_singular {word : String} (hne : word ≠ "")
    (hsmall : ∀ c ∈ word.toList, isSmall c = true) :
    ∀ c ∈ (singular word).toList, isSmall c = true := by
  rw [singular_of_isSmall hne hsmall]
  cases hone : irregularSingular? word with
  | some one =>
    have hspec := irregularNouns_spec _ (mem_of_irregularSingular? hone)
    intro c hc
    exact isSmall_of_isLower (hspec.1 c hc)
  | none =>
    dsimp only
    split_ifs
    · exact hsmall
    · exact isSmall_append (isSmall_dropLastChars 3 hsmall) rfl
    · exact isSmall_dropLastChars 2 hsmall
    · exact isSmall_dropLastChars 2 hsmall
    · exact isSmall_dropLastChars 1 hsmall
    · exact hsmall

/-- A word that is not replaced as a whole by its plural decides for the name. -/
theorem studly_singular_table_append {before word : String}
    (hstable : studly (before ++ word) = before ++ word)
    (halnum : ∀ c ∈ before.toList, c.isAlphanum = true) (h : EndWord before.toList word.toList)
    (hf : lower word ≠ "f") (hfe : lower word ≠ "fe") :
    studly (singular (table (before ++ word))) = before ++ word ↔
      returnsFromPlural (lower word) = true := by
  generalize hstart : String.ofList (chunksBefore before.toList) = start
  have hsmall : ∀ c ∈ (lower word).toList, isSmall c = true := by
    rw [toList_lower]
    exact h.isSmall_map_toLower
  have hne : lower word ≠ "" := by
    intro hempty
    have hlength := congrArg String.length hempty
    rw [length_lower, ← String.length_toList] at hlength
    exact h.ne_nil (List.length_eq_zero_iff.1 hlength)
  have hmany := h.plural hf hfe
  have hmanySmall : ∀ c ∈ (plural (lower word)).toList, isSmall c = true := by
    rw [← lower_plural h.alone, toList_lower]
    exact hmany.isSmall_map_toLower
  have hmanyNe : plural (lower word) ≠ "" := by
    rw [← lower_plural h.alone]
    intro hempty
    have hlength := congrArg String.length hempty
    rw [length_lower, ← String.length_toList] at hlength
    exact hmany.ne_nil (List.length_eq_zero_iff.1 hlength)
  have htable : table (before ++ word) = start ++ plural (lower word) := by
    rw [table, hstable, plural_append h, snake_append halnum hmany, hstart, lower_plural h.alone]
  have hword : EndWord start.toList (plural (lower word)).toList := by
    apply EndWord.bare _ (mt String.toList_eq_nil_iff.1 hmanyNe) hmanySmall
    rw [← hstart, String.toList_ofList]
    exact getLast?_chunksBefore _
  have hback : studly (start ++ lower word) = before ++ word := by
    rw [← hstart, ← snake_append halnum h, studly_snake hstable]
  rw [htable, singular_append hword, ← singular_plural_iff hne hsmall]
  constructor
  · intro hsame
    rw [← hback] at hsame
    exact eq_of_studly_append (isSmall_singular hmanyNe hmanySmall) hsmall hsame
  · intro hsame
    rw [hsame, hback]

/-! ## Words that are replaced as a whole -/

/-- The words whose plural has nothing of them. -/
theorem eq_of_lower_eq {before word : String} (h : EndWord before.toList word.toList)
    (hlow : startsLower word.toList = false) (hf : lower word = "f" ∨ lower word = "fe") :
    word = "F" ∨ word = "Fe" := by
  have hchars : word.toList.map Char.toLower = ['f'] ∨ word.toList.map Char.toLower = ['f', 'e'] := by
    rw [← toList_lower]
    exact hf.imp (fun hone ↦ by rw [hone]; rfl) fun htwo ↦ by rw [htwo]; rfl
  cases hword : word.toList with
  | nil => exact absurd hword h.ne_nil
  | cons c rest =>
    rw [hword] at h hchars hlow
    have hc : c.toLower = 'f' := by
      rcases hchars with hone | htwo
      · exact (List.cons.inj hone).1
      · exact (List.cons.inj htwo).1
    have hup : c = 'F' := by
      have hcase := isUpper_or_isLower_or_isDigit (h.isAlphanum c List.mem_cons_self)
      rcases hcase with hup | hno | hdigit
      · have hsame := Char.toUpper_eq_of_not_isLower (Char.not_isLower_of_isUpper hup)
        rw [← hsame, ← Char.toUpper_toLower_eq_toUpper, hc]
        rfl
      · rw [startsLower, hno] at hlow
        cases hlow
      · rw [toLower_of_isDigit hdigit] at hc
        rw [hc] at hdigit
        cases hdigit
    have hrest : rest.map Char.toLower = rest := by
      apply map_toLower_of_isSmall
      cases h with
      | bare _ _ hsmall => exact fun x hx ↦ hsmall x (List.mem_cons_of_mem c hx)
      | capital _ _ hsmall => exact hsmall
    rcases hchars with hone | htwo
    · left
      apply String.toList_injective
      rw [hword, hup, ← hrest, (List.cons.inj hone).2]
      rfl
    · right
      apply String.toList_injective
      rw [hword, hup, ← hrest, (List.cons.inj htwo).2]
      rfl

/-- Small letters behind a letter keep their case. -/
theorem recase_of_isLower {c : Char} {l : List Char} (hc : c.isAlpha = true)
    (hl : ∀ x ∈ l, x.isLower = true) : recase (some c) l = l := by
  induction l generalizing c with
  | nil => rfl
  | cons x rest ih =>
    rw [List.forall_mem_cons] at hl
    have hx : x.isAlpha = true := isAlpha_of_isLower hl.1
    have halnum : x.isAlphanum = true := isAlphanum_of_isAlpha hx
    have hstay : staysWith (some c) x rest = true :=
      (staysWith_of_isLower rest hl.1).2 ⟨c, rfl, hc⟩
    have hsame : x.toLower = x := Char.toLower_eq_of_not_isUpper (Char.not_isUpper_of_isLower hl.1)
    rw [recase, halnum, hstay, ih hx hl.2, hsame]
    rfl

/-- Studly case leaves small letters behind a letter at the end of a text. -/
theorem suffix_recase {c : Char} {l : List Char} (hc : c.isAlpha = true)
    (hl : ∀ x ∈ l, x.isLower = true) (start : List Char) (before : Option Char) :
    l <:+ recase before (start ++ c :: l) := by
  induction start generalizing before with
  | nil =>
    have halnum : c.isAlphanum = true := isAlphanum_of_isAlpha hc
    rw [List.nil_append, recase, halnum, recase_of_isLower hc hl]
    exact List.suffix_cons _ _
  | cons x rest ih =>
    rw [List.cons_append, recase]
    split
    · exact ih none
    · exact (ih (some x)).trans (List.suffix_cons _ _)

/-- Small letters, digits and underscores end with a word, which may be empty. -/
theorem exists_last_small {l : List Char} (h : ∀ c ∈ l, isSmall c = true ∨ c = '_') :
    ∃ before small, l = before ++ small ∧ (∀ a ∈ before.getLast?, a = '_') ∧
      ∀ c ∈ small, isSmall c = true := by
  induction l with
  | nil => exact ⟨[], [], rfl, by simp, List.forall_mem_nil _⟩
  | cons c rest ih =>
    rw [List.forall_mem_cons] at h
    obtain ⟨before, small, hrest, hlast, hsmall⟩ := ih h.2
    cases before with
    | nil =>
      rcases h.1 with hc | hc
      · refine ⟨[], c :: small, by rw [hrest]; rfl, by simp, ?_⟩
        exact List.forall_mem_cons.2 ⟨hc, hsmall⟩
      · refine ⟨[c], small, by rw [hrest]; rfl, ?_, hsmall⟩
        intro a ha
        rw [← Option.some.inj ha]
        exact hc
    | cons d before =>
      refine ⟨c :: d :: before, small, by rw [hrest]; rfl, ?_, hsmall⟩
      rw [List.getLast?_cons_cons]
      exact hlast

/-- A name that ends with the word `F` or `Fe` does not return from its table. -/
theorem studly_singular_table_ne {before word : String}
    (hstable : studly (before ++ word) = before ++ word)
    (halnum : ∀ c ∈ before.toList, c.isAlphanum = true) (h : EndWord before.toList word.toList)
    (hword : word = "F" ∨ word = "Fe") :
    studly (singular (table (before ++ word))) ≠ before ++ word := by
  have hplural : plural word = "ves" := by
    rcases hword with rfl | rfl <;> decide
  have hves : ∀ c ∈ "ves".toList, isSmall c = true := List.all_eq_true.1 rfl
  have hall : ∀ c ∈ (before ++ "ves").toList, c.isAlphanum = true := by
    rw [String.toList_append, List.forall_mem_append]
    exact ⟨halnum, fun c hc ↦ isAlphanum_of_isSmall (hves c hc)⟩
  obtain ⟨start, hstart, hletters, hchars⟩ := exists_chunked_append halnum hves none
  obtain ⟨first, small, hsplit, hfirst, hsmall⟩ := exists_last_small hchars
  have htable : table (before ++ word) =
      String.ofList first ++ (String.ofList small ++ "ves") := by
    apply String.toList_injective
    rw [table, hstable, plural_append h, hplural, toList_snake hall, String.toList_append, hstart,
      hsplit]
    simp only [String.toList_append, String.toList_ofList, List.append_assoc]
  have hsmall' : ∀ c ∈ (String.ofList small).toList, isSmall c = true := by
    rw [String.toList_ofList]
    exact hsmall
  have hend : EndWord (String.ofList first).toList (String.ofList small ++ "ves").toList := by
    apply EndWord.bare
    · rw [String.toList_ofList]
      exact hfirst
    · exact mt String.toList_eq_nil_iff.1 (append_ne_empty _ (by decide))
    · exact isSmall_append hsmall' rfl
  rw [htable, singular_append hend]
  intro hsame
  rcases singular_append_ves hsmall' with hve | ⟨one, hone, hsingular⟩
  · -- The letters tell: `ve` is not `f` or `fe`.
    rw [hve] at hsame
    have hletters' := congrArg (fun s : String ↦ smallLetters s.toList) hsame
    simp only [smallLetters_studly, String.toList_append, String.toList_ofList] at hletters'
    rw [← List.append_assoc, ← hsplit, smallLetters_append, smallLetters_append, hletters] at hletters'
    have hrest := List.append_cancel_left hletters'
    rcases hword with rfl | rfl
    · exact absurd hrest (by decide)
    · exact absurd hrest (by decide)
  · -- The capital tells: an irregular noun has small letters at its end.
    rw [hsingular] at hsame
    obtain ⟨hlower, -, hlength, -⟩ := irregularNouns_spec _ (mem_of_irregularSingular? hone)
    cases hone : one.toList with
    | nil =>
      rw [← String.length_toList, hone] at hlength
      cases hlength
    | cons c rest =>
      rw [hone, List.forall_mem_cons] at hlower
      rw [← String.length_toList, hone, List.length_cons] at hlength
      have hc : c.isAlpha = true := isAlpha_of_isLower hlower.1
      have hsuffix : rest <:+ (before ++ word).toList := by
        rw [← hsame, toList_studly, String.toList_append, hone]
        exact suffix_recase hc hlower.2 _ none
      have hcapital : 'F' ∈ rest := by
        have hlast : word.toList <:+ (before ++ word).toList := by
          rw [String.toList_append]
          exact List.suffix_append _ _
        have hshort : word.toList.length ≤ 2 := by
          rcases hword with rfl | rfl <;> decide
        have hinside := List.suffix_of_suffix_length_le hlast hsuffix (by omega)
        apply hinside.subset
        rcases hword with rfl | rfl <;> decide
      cases hlower.2 'F' hcapital

/-- The singular of its table, in studly case, is a name again exactly if the last word of the name
is the singular of its plural. -/
theorem studly_singular_table_iff {name : String} (hstable : studly name = name) (hne : name ≠ "") :
    studly (singular (table name)) = name ↔
      returnsFromPlural (lower (lastWord name).2) = true := by
  obtain ⟨before, word, hname, hword, halnum, hlow⟩ :=
    (settled_of_studly_eq hstable).exists_endWord hne
  rw [hname] at hstable ⊢
  rw [lastWord_append hword]
  by_cases hf : lower word = "f" ∨ lower word = "fe"
  · have hno : returnsFromPlural (lower word) = false := by
      rcases hf with hf | hf <;> (rw [hf]; decide)
    rw [hno]
    apply iff_of_false _ Bool.false_ne_true
    exact studly_singular_table_ne hstable halnum hword (eq_of_lower_eq hword hlow hf)
  · rw [not_or] at hf
    exact studly_singular_table_append hstable halnum hword hf.1 hf.2

/-- The table of orders leads back to them, the table of movies does not. -/
example : studly (singular (table "OrderItem")) = "OrderItem" ∧
    studly (singular (table "Movie")) = "Movy" := by
  decide

end Scaffold.Name
