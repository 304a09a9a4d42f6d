import Mathlib
import Scaffold.Proofs.Name.Ending

/-!
# Words that are the singular of their plural

The rules for plurals and the rules for singulars are two lists. They undo each other for irregular
nouns and for most endings, but not for all: the plural `movies` of `movie` is read as that of
`movy`, the plural `caches` of `cache` as that of `cach`. `returnsFromPlural` says for which words
the singular of the plural is the word again (`singular_plural_iff`).
-/

namespace Scaffold.Name

open Text

/-- Is the singular of the word's plural the word again? Of the words that are not irregular, those
with a hiss at the end take `es`, which is taken off again, but after `us` only if a consonant stands
before that. Words with other endings in `s` lose it, `fe` and `f` become `ve`, and a consonant
with `y` returns from `ies`. All other words take an `s`: it must not make an irregular word, nor
an ending from which more than the `s` is taken. -/
def returnsFromPlural (word : String) : Bool :=
  if (irregularPlural? word).isSome then true
  else if (irregularSingular? word).isSome then false
  else if ["sh", "ch", "x", "z", "ss", "us"].any (endsWith word) then
    (irregularSingular? (word ++ "es")).isNone &&
      (!endsWith word "us" || consonantFromEnd 2 word)
  else if endsWith word "s" then false
  else if endsWith word "y" && consonantFromEnd 1 word then true
  else if endsWith word "fe" || (endsWith word "f" && !endsWith word "ff") then false
  else
    (irregularSingular? (word ++ "s")).isNone && (irregularPlural? (word ++ "s")).isNone &&
      !(endsWith word "ie" && 2 < word.length) &&
      !(["che", "she", "xe", "ze", "sse"].any (endsWith word)) &&
      !(endsWith word "use" && consonantFromEnd 3 word)

variable {word : String}

/-- A word in small letters is a name of one word. -/
theorem endWord_of_isSmall (hne : word ≠ "") (hsmall : ∀ c ∈ word.toList, isSmall c = true) :
    EndWord [] word.toList := .bare (by simp) (mt String.toList_eq_nil_iff.1 hne) hsmall

theorem lower_of_isSmall (hsmall : ∀ c ∈ word.toList, isSmall c = true) : lower word = word := by
  apply String.toList_injective
  rw [toList_lower, map_toLower_of_isSmall hsmall]

section Small

variable (hne : word ≠ "") (hsmall : ∀ c ∈ word.toList, isSmall c = true)

include hne hsmall

/-- The plural of a word in small letters. -/
theorem plural_of_isSmall :
    plural word =
      match irregularPlural? word with
      | some many => many
      | none =>
        if (irregularSingular? word).isSome then word
        else if ["sh", "ch", "x", "z", "ss", "us"].any (endsWith word) then word ++ "es"
        else if endsWith word "s" then word
        else if endsWith word "y" && consonantFromEnd 1 word then dropLastChars 1 word ++ "ies"
        else if endsWith word "fe" then dropLastChars 2 word ++ "ves"
        else if endsWith word "f" && !endsWith word "ff" then dropLastChars 1 word ++ "ves"
        else word ++ "s" := by
  have hmatch (other : String) : matchCase word other = other := matchCase_of_isSmall hsmall other
  unfold plural
  rw [lastWord_alone (endWord_of_isSmall hne hsmall), beq_eq_false_iff_ne.2 hne]
  simp only [Bool.false_eq_true, if_false, String.empty_append, lower_of_isSmall hsmall]
  cases irregularPlural? word <;> simp only [hmatch]

/-- The singular of a word in small letters. -/
theorem singular_of_isSmall :
    singular word =
      match irregularSingular? word with
      | some one => one
      | none =>
        if (irregularPlural? word).isSome then word
        else if endsWith word "ies" && 3 < word.length then dropLastChars 3 word ++ "y"
        else if ["ches", "shes", "xes", "zes", "sses"].any (endsWith word) then dropLastChars 2 word
        else if endsWith word "uses" && consonantFromEnd 4 word then dropLastChars 2 word
        else if endsWith word "s" && !endsWith word "ss" then dropLastChars 1 word
        else word := by
  have hmatch (other : String) : matchCase word other = other := matchCase_of_isSmall hsmall other
  unfold singular
  rw [lastWord_alone (endWord_of_isSmall hne hsmall), beq_eq_false_iff_ne.2 hne]
  simp only [Bool.false_eq_true, if_false, String.empty_append, lower_of_isSmall hsmall]
  cases irregularSingular? word <;> simp only [hmatch]

end Small

/-! ## Irregular words -/

theorem irregularSingular?_of_mem {one many : String} (h : (one, many) ∈ irregularNouns) :
    irregularSingular? many = some one := by
  have hall : ∀ e ∈ irregularNouns, irregularSingular? e.2 = some e.1 := by decide
  exact hall _ h

theorem isSome_irregularPlural?_of_mem {one many : String} (h : (one, many) ∈ irregularNouns) :
    (irregularPlural? one).isSome = true := by
  have hall : ∀ e ∈ irregularNouns, (irregularPlural? e.1).isSome = true := by decide
  exact hall _ h

/-- A word that is no irregular noun is not the irregular singular of anything. -/
theorem ne_of_irregularSingular? {many one : String} (hword : irregularPlural? word = none)
    (h : irregularSingular? many = some one) : one ≠ word := by
  intro heq
  have hsome := isSome_irregularPlural?_of_mem (mem_of_irregularSingular? h)
  rw [heq, hword] at hsome
  cases hsome

/-- No irregular noun ends in `es`. -/
theorem irregularPlural?_append_es (start : String) : irregularPlural? (start ++ "es") = none := by
  have hall : ∀ e ∈ irregularNouns, endsWith e.1 "es" = false := by decide
  cases hmany : irregularPlural? (start ++ "es") with
  | none => rfl
  | some many =>
    have hno := hall _ (mem_of_irregularPlural? hmany)
    rw [endsWith_append_self] at hno
    cases hno

/-- No irregular plural ends in `ies`. -/
theorem irregularSingular?_append_ies (start : String) :
    irregularSingular? (start ++ "ies") = none := by
  have hall : ∀ e ∈ irregularNouns, endsWith e.2 "ies" = false := by decide
  cases hone : irregularSingular? (start ++ "ies") with
  | none => rfl
  | some one =>
    have hno := hall _ (mem_of_irregularSingular? hone)
    rw [endsWith_append_self] at hno
    cases hno

/-! ## The singular of what plurals end with -/

theorem isSmall_append {start ending : String} (hstart : ∀ c ∈ start.toList, isSmall c = true)
    (hending : ending.toList.all isSmall = true) :
    ∀ c ∈ (start ++ ending).toList, isSmall c = true := by
  rw [String.toList_append, List.forall_mem_append]
  exact ⟨hstart, List.all_eq_true.1 hending⟩

theorem append_ne_empty (start : String) {ending : String} (hending : ending ≠ "") :
    start ++ ending ≠ "" := by
  intro hempty
  exact hending (String.append_eq_empty_iff.1 hempty).2

theorem append_ne_self (start : String) {ending : String} (hending : ending ≠ "") :
    start ++ ending ≠ start := by
  intro hsame
  have hlength := congrArg String.length hsame
  rw [String.length_append] at hlength
  exact hending (String.length_eq_zero_iff.1 (by omega))

/-- A consonant and `y` return from `ies`. -/
theorem singular_append_ies {start : String} (hstart : start ≠ "")
    (hsmall : ∀ c ∈ start.toList, isSmall c = true) : singular (start ++ "ies") = start ++ "y" := by
  have hplural : irregularPlural? (start ++ "ies") = none := by
    rw [show start ++ "ies" = (start ++ "i") ++ "es" by rw [String.append_assoc]; rfl]
    exact irregularPlural?_append_es _
  have hlength : 3 < (start ++ "ies").length := by
    have hpos : start.length ≠ 0 := mt String.length_eq_zero_iff.1 hstart
    rw [String.length_append, show "ies".length = 3 from rfl]
    omega
  rw [singular_of_isSmall (append_ne_empty start (by decide)) (isSmall_append hsmall rfl),
    irregularSingular?_append_ies, hplural, endsWith_append_self]
  simp only [Option.isSome_none, Bool.false_eq_true, if_false, Bool.true_and,
    decide_eq_true_eq, hlength, if_true]
  rw [show 3 = "ies".length from rfl, dropLastChars_append_self]

/-- What `f` and `fe` become has a singular in `ve`, unless it is irregular. -/
theorem singular_append_ves {start : String} (hsmall : ∀ c ∈ start.toList, isSmall c = true) :
    singular (start ++ "ves") = start ++ "ve" ∨
      ∃ one, irregularSingular? (start ++ "ves") = some one ∧ singular (start ++ "ves") = one := by
  have hplural : irregularPlural? (start ++ "ves") = none := by
    rw [show start ++ "ves" = (start ++ "v") ++ "es" by rw [String.append_assoc]; rfl]
    exact irregularPlural?_append_es _
  have hdrop : dropLastChars 1 (start ++ "ves") = start ++ "ve" := by
    rw [show start ++ "ves" = (start ++ "ve") ++ "s" by rw [String.append_assoc]; rfl]
    exact dropLastChars_append_self _ "s"
  rw [singular_of_isSmall (append_ne_empty start (by decide)) (isSmall_append hsmall rfl)]
  cases hone : irregularSingular? (start ++ "ves") with
  | some one => exact .inr ⟨one, rfl, rfl⟩
  | none =>
    left
    rw [hplural]
    simp [endsWith, List.isPrefixOf, hdrop]

/-- A word whose end is replaced by `ves` does not return. -/
theorem singular_ves_ne (hsmall : ∀ c ∈ word.toList, isSmall c = true)
    (hplural : irregularPlural? word = none) {start ending : String} (hword : word = start ++ ending)
    (hending : ending ≠ "ve") {n : ℕ} (hn : ending.length = n) :
    singular (dropLastChars n word ++ "ves") ≠ word := by
  have hdrop : dropLastChars n word = start := by
    rw [hword, ← hn, dropLastChars_append_self]
  have hstart : ∀ c ∈ start.toList, isSmall c = true := by
    rw [hword, String.toList_append, List.forall_mem_append] at hsmall
    exact hsmall.1
  rw [hdrop]
  rcases singular_append_ves hstart with hve | ⟨one, hone, hsingular⟩
  · rw [hve, hword]
    intro hsame
    exact hending ((String.append_right_inj start).1 hsame).symm
  · rw [hsingular]
    exact ne_of_irregularSingular? hplural hone

/-- A word in `s` that has no other plural is not the singular of itself. -/
theorem singular_ne_of_endsWith_s (hne : word ≠ "") (hsmall : ∀ c ∈ word.toList, isSmall c = true)
    (hplural : irregularPlural? word = none) (hs : endsWith word "s" = true)
    (hss : endsWith word "ss" = false) : singular word ≠ word := by
  have hpos : word.length ≠ 0 := mt String.length_eq_zero_iff.1 hne
  have hshorter (n : ℕ) (hn : n ≠ 0) : dropLastChars n word ≠ word := by
    intro hsame
    have hlength := congrArg String.length hsame
    rw [length_dropLastChars] at hlength
    omega
  rw [singular_of_isSmall hne hsmall]
  cases hone : irregularSingular? word with
  | some one => exact ne_of_irregularSingular? hplural hone
  | none =>
    rw [hplural, hs, hss]
    simp only [Option.isSome_none, Bool.false_eq_true, if_false, Bool.not_false, Bool.and_true]
    split_ifs
    · intro hsame
      rw [← hsame] at hs
      simp [endsWith] at hs
    · exact hshorter 2 (by decide)
    · exact hshorter 2 (by decide)
    · exact hshorter 1 (by decide)

theorem consonantFromEnd_append (k : ℕ) (start ending : String) :
    consonantFromEnd (k + ending.length) (start ++ ending) = consonantFromEnd k start := by
  unfold consonantFromEnd
  rw [String.toList_append, List.reverse_append, ← String.length_toList, ← List.length_reverse,
    Nat.add_comm, List.getElem?_append_right (by omega)]
  simp

/-- A hiss returns from `es`. -/
theorem singular_append_es (hsmall : ∀ c ∈ word.toList, isSmall c = true)
    (hplural : irregularPlural? word = none)
    (hhiss : ["sh", "ch", "x", "z", "ss", "us"].any (endsWith word) = true) :
    singular (word ++ "es") = word ↔ ((irregularSingular? (word ++ "es")).isNone &&
      (!endsWith word "us" || consonantFromEnd 2 word)) = true := by
  rw [singular_of_isSmall (append_ne_empty word (by decide)) (isSmall_append hsmall rfl),
    irregularPlural?_append_es]
  cases hone : irregularSingular? (word ++ "es") with
  | some one =>
    apply iff_of_false
    · exact ne_of_irregularSingular? hplural hone
    · exact Bool.false_ne_true
  | none =>
    have hdrop : dropLastChars 2 (word ++ "es") = word := dropLastChars_append_self word "es"
    simp only [Option.isSome_none, Option.isNone_none, Bool.false_eq_true, if_false, Bool.true_and]
    by_cases hus : endsWith word "us" = true
    · obtain ⟨start, hword⟩ := exists_append_of_endsWith hus
      have hies : endsWith (word ++ "es") "ies" = false := by
        simp [hword, endsWith, List.isPrefixOf]
      have hothers : ["ches", "shes", "xes", "zes", "sses"].any (endsWith (word ++ "es")) = false := by
        simp [hword, endsWith, List.isPrefixOf]
      have huses : endsWith (word ++ "es") "uses" = true := by
        rw [← hus]
        exact endsWith_append_append word "us" "es"
      have hconsonant : consonantFromEnd 4 (word ++ "es") = consonantFromEnd 2 word :=
        consonantFromEnd_append 2 word "es"
      rw [hies, hothers, huses, hconsonant, hus]
      cases consonantFromEnd 2 word with
      | true => simp [hdrop]
      | false =>
        have hs : endsWith (word ++ "es") "s" = true := by simp [endsWith]
        have hss : endsWith (word ++ "es") "ss" = false := by simp [endsWith, List.isPrefixOf]
        have hdrop : dropLastChars 1 (word ++ "es") = word ++ "e" := by
          rw [show word ++ "es" = (word ++ "e") ++ "s" by rw [String.append_assoc]; rfl]
          exact dropLastChars_append_self _ "s"
        simp [hs, hss, hdrop]
    · rw [Bool.not_eq_true] at hus
      have hothers : ["ches", "shes", "xes", "zes", "sses"].any (endsWith (word ++ "es")) = true := by
        have hsame : ["ches", "shes", "xes", "zes", "sses"] =
            ["ch", "sh", "x", "z", "ss"].map (· ++ "es") := rfl
        simp only [List.any_cons, List.any_nil, hus, Bool.or_false, Bool.or_eq_true] at hhiss
        simp only [hsame, List.any_map, List.any_cons, List.any_nil, Function.comp_apply,
          endsWith_append_append, Bool.or_false, Bool.or_eq_true]
        exact or_left_comm.1 hhiss
      have hies : endsWith (word ++ "es") "ies" = false := by
        rw [show "ies" = "i" ++ "es" from rfl, endsWith_append_append]
        obtain ⟨ending, hmem, hend⟩ := List.any_eq_true.1 hhiss
        obtain ⟨start, hword⟩ := exists_append_of_endsWith hend
        have hlast : ∀ e ∈ ["sh", "ch", "x", "z", "ss", "us"], endsWith (start ++ e) "i" = false := by
          simp [endsWith, List.isPrefixOf]
        rw [hword]
        exact hlast ending hmem
      rw [hies, hothers, hus]
      simp [hdrop]

/-- Of other words the `s` is taken off again, unless it makes an irregular word or the end of a
longer ending. -/
theorem singular_append_s (hne : word ≠ "") (hsmall : ∀ c ∈ word.toList, isSmall c = true)
    (hplural : irregularPlural? word = none) (hs : endsWith word "s" = false) :
    singular (word ++ "s") = word ↔
      ((irregularSingular? (word ++ "s")).isNone && (irregularPlural? (word ++ "s")).isNone &&
        !(endsWith word "ie" && 2 < word.length) &&
        !(["che", "she", "xe", "ze", "sse"].any (endsWith word)) &&
        !(endsWith word "use" && consonantFromEnd 3 word)) = true := by
  have hpos : word.length ≠ 0 := mt String.length_eq_zero_iff.1 hne
  have hlength : (word ++ "s").length = word.length + 1 := by
    rw [String.length_append]
    rfl
  have hshorter : dropLastChars 2 (word ++ "s") ≠ word := by
    intro hsame
    have hless := congrArg String.length hsame
    rw [length_dropLastChars] at hless
    omega
  have hothers : ["ches", "shes", "xes", "zes", "sses"].any (endsWith (word ++ "s")) =
      ["che", "she", "xe", "ze", "sse"].any (endsWith word) := by
    have hsame : ["ches", "shes", "xes", "zes", "sses"] =
        ["che", "she", "xe", "ze", "sse"].map (· ++ "s") := rfl
    simp only [hsame, List.any_map, List.any_cons, List.any_nil, Function.comp_apply,
      endsWith_append_append]
  have hies : endsWith (word ++ "s") "ies" = endsWith word "ie" :=
    endsWith_append_append word "ie" "s"
  have huses : endsWith (word ++ "s") "uses" = endsWith word "use" :=
    endsWith_append_append word "use" "s"
  have hconsonant : consonantFromEnd 4 (word ++ "s") = consonantFromEnd 3 word :=
    consonantFromEnd_append 3 word "s"
  have hss : endsWith (word ++ "s") "ss" = false := by
    rw [← hs]
    exact endsWith_append_append word "s" "s"
  rw [singular_of_isSmall (append_ne_empty word (by decide)) (isSmall_append hsmall rfl)]
  cases hone : irregularSingular? (word ++ "s") with
  | some one => exact iff_of_false (ne_of_irregularSingular? hplural hone) Bool.false_ne_true
  | none =>
    cases hmany : irregularPlural? (word ++ "s") with
    | some many => exact iff_of_false (append_ne_self word (by decide)) Bool.false_ne_true
    | none =>
      rw [hies, hothers, huses, hconsonant, hss, endsWith_append_self, hlength]
      have hthree : decide (3 < word.length + 1) = decide (2 < word.length) := by
        rw [decide_eq_decide]
        omega
      rw [hthree]
      simp only [Option.isSome_none, Option.isNone_none, Bool.false_eq_true, if_false, Bool.true_and,
        Bool.not_false, if_true]
      split_ifs with hie hany huse
      · rw [hie]
        apply iff_of_false _ Bool.false_ne_true
        obtain ⟨start, hword⟩ := exists_append_of_endsWith (Bool.and_eq_true_iff.1 hie).1
        have hdrop : dropLastChars 3 (word ++ "s") = start := by
          rw [hword, String.append_assoc]
          exact dropLastChars_append_self start "ies"
        intro hsame
        rw [hdrop, hword] at hsame
        have hless := congrArg String.length hsame
        rw [String.length_append, String.length_append, show "y".length = 1 from rfl,
          show "ie".length = 2 from rfl] at hless
        omega
      · rw [hany]
        exact iff_of_false hshorter (by simp)
      · rw [huse]
        exact iff_of_false hshorter (by simp)
      · rw [Bool.not_eq_true] at hie hany huse
        rw [hie, hany, huse]
        exact iff_of_true (dropLastChars_append_self word "s") rfl

/-- The singular of the plural of a word is the word exactly if the rules say so. -/
theorem singular_plural_iff (hne : word ≠ "") (hsmall : ∀ c ∈ word.toList, isSmall c = true) :
    singular (plural word) = word ↔ returnsFromPlural word = true := by
  rw [plural_of_isSmall hne hsmall]
  unfold returnsFromPlural
  cases hmany : irregularPlural? word with
  | some many =>
    have hmem := mem_of_irregularPlural? hmany
    have hspec := irregularNouns_spec _ hmem
    have hmany' : many ≠ "" := by
      intro hempty
      have hlength := hspec.2.2.2
      rw [hempty] at hlength
      cases hlength
    apply iff_of_true _ rfl
    dsimp only
    rw [singular_of_isSmall hmany' fun c hc ↦ isSmall_of_isLower (hspec.2.1 c hc),
      irregularSingular?_of_mem hmem]
  | none =>
    simp only [Option.isSome_none, Bool.false_eq_true, if_false]
    by_cases hirregular : (irregularSingular? word).isSome = true
    · rw [if_pos hirregular, if_pos hirregular]
      obtain ⟨one, hone⟩ := Option.isSome_iff_exists.1 hirregular
      apply iff_of_false _ Bool.false_ne_true
      rw [singular_of_isSmall hne hsmall, hone]
      exact ne_of_irregularSingular? hmany hone
    · rw [if_neg hirregular, if_neg hirregular]
      by_cases hhiss : ["sh", "ch", "x", "z", "ss", "us"].any (endsWith word) = true
      · rw [if_pos hhiss, if_pos hhiss]
        exact singular_append_es hsmall hmany hhiss
      rw [if_neg hhiss, if_neg hhiss]
      by_cases hs : endsWith word "s" = true
      · rw [if_pos hs, if_pos hs]
        rw [Bool.not_eq_true, List.any_eq_false] at hhiss
        have hss : endsWith word "ss" = false := by simpa using hhiss "ss" (by decide)
        exact iff_of_false (singular_ne_of_endsWith_s hne hsmall hmany hs hss) Bool.false_ne_true
      rw [if_neg hs, if_neg hs]
      by_cases hy : (endsWith word "y" && consonantFromEnd 1 word) = true
      · rw [if_pos hy, if_pos hy]
        obtain ⟨start, hword⟩ := exists_append_of_endsWith (Bool.and_eq_true_iff.1 hy).1
        have hlength := lt_length_of_consonantFromEnd (Bool.and_eq_true_iff.1 hy).2
        have hstart : start ≠ "" := by
          intro hempty
          rw [hword, hempty] at hlength
          exact absurd hlength (by decide)
        have hdrop : dropLastChars 1 word = start := by
          rw [hword]
          exact dropLastChars_append_self start "y"
        rw [hword, String.toList_append, List.forall_mem_append] at hsmall
        apply iff_of_true _ rfl
        rw [hdrop, singular_append_ies hstart hsmall.1, ← hword]
      rw [if_neg hy, if_neg hy]
      by_cases hfe : endsWith word "fe" = true
      · rw [if_pos hfe, hfe, Bool.true_or, if_pos rfl]
        obtain ⟨start, hword⟩ := exists_append_of_endsWith hfe
        apply iff_of_false _ Bool.false_ne_true
        exact singular_ves_ne hsmall hmany hword (by decide) rfl
      rw [if_neg hfe, Bool.not_eq_true _ |>.mp hfe, Bool.false_or]
      by_cases hf : (endsWith word "f" && !endsWith word "ff") = true
      · rw [if_pos hf, if_pos hf]
        obtain ⟨start, hword⟩ := exists_append_of_endsWith (Bool.and_eq_true_iff.1 hf).1
        apply iff_of_false _ Bool.false_ne_true
        exact singular_ves_ne hsmall hmany hword (by decide) rfl
      rw [if_neg hf, if_neg hf]
      rw [Bool.not_eq_true] at hs
      exact singular_append_s hne hsmall hmany hs

end Scaffold.Name
