import Mathlib
import Scaffold.Name.Plural
import Scaffold.Proofs.Name.Snake
import Scaffold.Proofs.Text.Endings
import Scaffold.Proofs.Text.Trimming

/-!
# The last word of a name

Plural and singular change the last word of a name and leave what stands before it. `EndWord` says
which words are found at the end of which texts, in studly names as well as in tables. In small
letters the plural of a name is the plural of its last word behind the same text, with one
exception: the words `F` and `Fe` lose their capital.
-/

namespace Scaffold.Name

open Text

/-- `word` is found as the last word behind `before`. -/
inductive EndWord : List Char → List Char → Prop
  /-- Small letters and digits at the start or behind an underscore. -/
  | bare {before word : List Char} (hbefore : ∀ a ∈ before.getLast?, a = '_')
      (hne : word ≠ []) (hsmall : ∀ c ∈ word, isSmall c = true) : EndWord before word
  /-- A capital with small letters and digits. Behind another capital a small letter comes next. -/
  | capital {before small : List Char} {c : Char} (hc : c.isUpper = true)
      (hbefore : ∀ a ∈ before.getLast?, a.isUpper → startsLower small = true)
      (hsmall : ∀ x ∈ small, isSmall x = true) : EndWord before (c :: small)

variable {before word : List Char}

theorem EndWord.ne_nil (h : EndWord before word) : word ≠ [] := by
  cases h with
  | bare _ hne _ => exact hne
  | capital => exact List.cons_ne_nil _ _

/-- A last word is one on its own. -/
theorem EndWord.alone (h : EndWord before word) : EndWord [] word := by
  cases h with
  | bare _ hne hsmall => exact .bare (by simp) hne hsmall
  | capital hc _ hsmall => exact .capital hc (by simp) hsmall

theorem EndWord.isSmall_map_toLower (h : EndWord before word) :
    ∀ c ∈ word.map Char.toLower, isSmall c = true := by
  cases h with
  | bare _ _ hsmall =>
    rw [map_toLower_of_isSmall hsmall]
    exact hsmall
  | capital hc _ hsmall =>
    rw [List.map_cons, map_toLower_of_isSmall hsmall, List.forall_mem_cons]
    refine ⟨?_, hsmall⟩
    simp [isSmall, Char.isAlpha, hc]

theorem EndWord.isAlphanum (h : EndWord before word) : ∀ c ∈ word, c.isAlphanum = true := by
  intro c hc
  rw [← isAlphanum_toLower]
  exact isAlphanum_of_isSmall (h.isSmall_map_toLower _ (List.mem_map_of_mem hc))

/-- The last word of a name, read from its end. -/
theorem takeWord_append (h : EndWord before word) :
    let back := word.reverse ++ before.reverse
    let small := back.takeWhile isSmall
    let rest := back.drop small.length
    (if small.isEmpty then rest.takeWhile Char.isUpper
      else small ++ (rest.take 1).filter Char.isUpper) = word.reverse := by
  intro back small rest
  cases h with
  | bare hbefore hne hsmall =>
    have hhead : ∀ a ∈ before.reverse.head?, a = '_' := by
      rw [List.head?_reverse]
      exact hbefore
    have hall : small = word.reverse := by
      refine (takeWhile_dropWhile_append ?_ ?_).1
      · intro c hc
        exact hsmall c (List.mem_reverse.1 hc)
      · intro a ha
        rw [hhead a ha]
        rfl
    have hrest : rest = before.reverse := by
      rw [show rest = back.drop small.length from rfl, hall]
      exact List.drop_left
    have hnil : (before.reverse.take 1).filter Char.isUpper = [] := by
      cases hrev : before.reverse with
      | nil => rfl
      | cons a more =>
        rw [hrev] at hhead
        rw [hhead a rfl]
        rfl
    rw [hall, hrest, hnil, if_neg (by simpa using hne), List.append_nil]
  | capital hc hbefore hsmall =>
    rename_i tail c
    have hback : back = tail.reverse ++ c :: before.reverse := by
      rw [show back = (c :: tail).reverse ++ before.reverse from rfl, List.reverse_cons,
        List.append_assoc, List.singleton_append]
    have hnot : isSmall c = false := by
      by_contra hno
      rw [Bool.not_eq_false] at hno
      rw [isUpper_eq_false_of_isSmall hno] at hc
      cases hc
    have hall : small = tail.reverse := by
      rw [show small = back.takeWhile isSmall from rfl, hback]
      refine (takeWhile_dropWhile_append ?_ ?_).1
      · intro x hx
        exact hsmall x (List.mem_reverse.1 hx)
      · intro a ha
        rw [← Option.some.inj ha]
        exact hnot
    have hrest : rest = c :: before.reverse := by
      rw [show rest = back.drop small.length from rfl, hall, hback]
      exact List.drop_left
    rw [hall, hrest, List.reverse_cons]
    cases tail with
    | nil =>
      have hstop : before.reverse.takeWhile Char.isUpper = [] := by
        cases hrev : before.reverse with
        | nil => rfl
        | cons a more =>
          have ha : a ∈ before.getLast? := by
            rw [← List.head?_reverse, hrev]
            rfl
          have hno : a.isUpper = false := by
            by_contra hup
            rw [Bool.not_eq_false] at hup
            cases hbefore a ha hup
          simp [hno]
      simp [hc, hstop]
    | cons x more =>
      rw [if_neg (by simp)]
      simp [hc]

/-- The last word of a name is found. -/
theorem lastWord_append {before word : String} (h : EndWord before.toList word.toList) :
    lastWord (before ++ word) = (before, word) := by
  have hfeed : ((before ++ word).toList.reverse.head? == some '\n') = false := by
    rw [String.toList_append, List.reverse_append, List.head?_append, List.head?_reverse]
    cases hlast : word.toList.getLast? with
    | none => exact absurd (List.getLast?_eq_none_iff.1 hlast) h.ne_nil
    | some c =>
      have halnum := h.isAlphanum c (List.mem_of_getLast? hlast)
      rw [Option.some_or, beq_eq_false_iff_ne]
      intro heq
      rw [Option.some.inj heq] at halnum
      cases halnum
  have hword := takeWord_append h
  have hne : word.toList.reverse.isEmpty = false := by simpa using h.ne_nil
  unfold isSmall at hword
  unfold lastWord
  simp only [hfeed, Bool.false_eq_true, if_false]
  rw [String.toList_append, List.reverse_append, hword, hne]
  simp only [Bool.false_eq_true, if_false, List.drop_left, List.reverse_reverse, String.ofList_toList]

theorem lastWord_alone {word : String} (h : EndWord [] word.toList) : lastWord word = ("", word) := by
  have happend : lastWord ("" ++ word) = ("", word) := lastWord_append h
  rwa [String.empty_append] at happend

/-! ## Plural and singular of the last word -/

theorem lt_length_of_consonantFromEnd {k : ℕ} {word : String} (h : consonantFromEnd k word = true) :
    k < word.length := by
  unfold consonantFromEnd at h
  cases hchar : word.toList.reverse[k]? with
  | none =>
    rw [hchar] at h
    cases h
  | some c =>
    obtain ⟨hk, -⟩ := List.getElem?_eq_some_iff.1 hchar
    rwa [List.length_reverse, String.length_toList] at hk

section Append

variable {before word : String} (h : EndWord before.toList word.toList)

include h

theorem EndWord.append_ne_empty : (before ++ word == "") = false ∧ (word == "") = false := by
  have hword : word ≠ "" := mt String.toList_eq_nil_iff.2 h.ne_nil
  rw [beq_eq_false_iff_ne, beq_eq_false_iff_ne]
  refine ⟨?_, hword⟩
  intro hempty
  exact hword (String.append_eq_empty_iff.1 hempty).2

/-- The plural of a name is that of its last word behind what stands before it. -/
theorem plural_append : plural (before ++ word) = before ++ plural word := by
  unfold plural
  rw [lastWord_append h, lastWord_alone h.alone, h.append_ne_empty.1, h.append_ne_empty.2]
  simp only [Bool.false_eq_true, if_false]
  cases irregularPlural? (lower word) with
  | some many => simp only [String.empty_append]
  | none =>
    dsimp only
    split_ifs with _ _ _ hy hfe hf
    · rfl
    · exact String.append_assoc ..
    · rfl
    · rw [dropLastChars_append_of_endsWith (Bool.and_eq_true_iff.1 hy).1 (by decide), String.append_assoc]
    · rw [dropLastChars_append_of_endsWith hfe (by decide), String.append_assoc]
    · rw [dropLastChars_append_of_endsWith (Bool.and_eq_true_iff.1 hf).1 (by decide), String.append_assoc]
    · exact String.append_assoc ..

/-- The singular of a name is that of its last word behind what stands before it. -/
theorem singular_append : singular (before ++ word) = before ++ singular word := by
  unfold singular
  rw [lastWord_append h, lastWord_alone h.alone, h.append_ne_empty.1, h.append_ne_empty.2]
  simp only [Bool.false_eq_true, if_false]
  cases irregularSingular? (lower word) with
  | some one => simp only [String.empty_append]
  | none =>
    dsimp only
    split_ifs with _ hies hes huses hs
    · rfl
    · rw [dropLastChars_append_of_endsWith (Bool.and_eq_true_iff.1 hies).1 (by decide), String.append_assoc]
    · obtain ⟨ending, hmem, hend⟩ := List.any_eq_true.1 hes
      have hlength : ∀ e ∈ ["ches", "shes", "xes", "zes", "sses"], 2 ≤ e.length := by decide
      exact dropLastChars_append_of_endsWith hend (hlength ending hmem)
    · exact dropLastChars_append_of_endsWith (Bool.and_eq_true_iff.1 huses).1 (by decide)
    · exact dropLastChars_append_of_endsWith (Bool.and_eq_true_iff.1 hs).1 (by decide)
    · rfl

end Append

/-! ## The plural in small letters -/

/-- Irregular nouns and their plurals are small letters, at least three. -/
theorem irregularNouns_spec :
    ∀ e ∈ irregularNouns, (∀ c ∈ e.1.toList, c.isLower = true) ∧
      (∀ c ∈ e.2.toList, c.isLower = true) ∧ 3 ≤ e.1.length ∧ 3 ≤ e.2.length := by
  have hall : (irregularNouns.all fun e ↦ e.1.toList.all Char.isLower &&
      e.2.toList.all Char.isLower && decide (3 ≤ e.1.length) && decide (3 ≤ e.2.length)) = true := by
    decide
  intro e he
  have hspec := List.all_eq_true.1 hall e he
  simp only [Bool.and_eq_true, List.all_eq_true, decide_eq_true_eq] at hspec
  exact ⟨hspec.1.1.1, hspec.1.1.2, hspec.1.2, hspec.2⟩

theorem mem_of_irregularPlural? {word many : String} (h : irregularPlural? word = some many) :
    (word, many) ∈ irregularNouns := by
  obtain ⟨before, after, hnouns, -⟩ := List.lookup_eq_some_iff.1 h
  rw [hnouns]
  exact List.mem_append_right _ List.mem_cons_self

theorem mem_of_irregularSingular? {word one : String} (h : irregularSingular? word = some one) :
    (one, word) ∈ irregularNouns := by
  obtain ⟨before, after, hnouns, -⟩ := List.lookup_eq_some_iff.1 h
  have hmem : (word, one) ∈ irregularNouns.map Prod.swap := by
    rw [hnouns]
    exact List.mem_append_right _ List.mem_cons_self
  obtain ⟨e, he, hswap⟩ := List.mem_map.1 hmem
  have heq : e = (one, word) := Prod.swap_injective (hswap.trans rfl)
  rwa [← heq]

theorem isSmall_of_isLower {c : Char} (h : c.isLower = true) : isSmall c = true := by
  rw [isSmall, h, Bool.true_or]

theorem matchCase_of_isSmall {model : String} (h : ∀ c ∈ model.toList, isSmall c = true)
    (word : String) : matchCase model word = word := by
  unfold matchCase
  cases hmodel : model.toList with
  | nil => rfl
  | cons c rest =>
    rw [hmodel, List.forall_mem_cons] at h
    simp only [isUpper_eq_false_of_isSmall h.1, Bool.false_eq_true, if_false]

theorem lower_matchCase {model word : String} (h : ∀ c ∈ word.toList, c.isLower = true) :
    lower (matchCase model word) = word := by
  have hsame : word.toList.map Char.toLower = word.toList :=
    map_toLower_of_isSmall fun c hc ↦ isSmall_of_isLower (h c hc)
  have hcapital : (capitalizeChars word.toList).map Char.toLower = word.toList.map Char.toLower := by
    cases word.toList with
    | nil => rfl
    | cons c rest => simp [capitalizeChars]
  apply String.toList_injective
  rw [toList_lower]
  unfold matchCase
  split
  · split
    · rw [capitalize, String.toList_ofList, hcapital, hsame]
    · exact hsame
  · exact hsame

/-- The plural of a word in small letters. -/
theorem lower_plural {word : String} (h : EndWord [] word.toList) :
    lower (plural word) = plural (lower word) := by
  have hsmall : ∀ c ∈ (lower word).toList, isSmall c = true := by
    rw [toList_lower]
    exact h.isSmall_map_toLower
  have hne : word ≠ "" := mt String.toList_eq_nil_iff.2 h.ne_nil
  have hne' : (lower word).toList ≠ [] := by
    rw [toList_lower]
    exact mt List.map_eq_nil_iff.1 h.ne_nil
  have hlower : EndWord [] (lower word).toList := .bare (by simp) hne' hsmall
  have hsame : lower (lower word) = lower word := by
    apply String.toList_injective
    rw [toList_lower, map_toLower_of_isSmall hsmall]
  unfold plural
  rw [lastWord_alone h, lastWord_alone hlower, beq_eq_false_iff_ne.2 hne,
    beq_eq_false_iff_ne.2 (mt String.toList_eq_nil_iff.2 hne')]
  simp only [Bool.false_eq_true, if_false, String.empty_append, hsame]
  cases hmany : irregularPlural? (lower word) with
  | some many =>
    have hspec := irregularNouns_spec _ (mem_of_irregularPlural? hmany)
    dsimp only
    rw [lower_matchCase hspec.2.1, matchCase_of_isSmall hsmall]
  | none =>
    have hes : lower "es" = "es" := by decide
    have hies : lower "ies" = "ies" := by decide
    have hves : lower "ves" = "ves" := by decide
    have hs : lower "s" = "s" := by decide
    dsimp only
    split_ifs
    · rfl
    · rw [lower_append, hes]
    · rfl
    · rw [lower_append, lower_dropLastChars, hies]
    · rw [lower_append, lower_dropLastChars, hves]
    · rw [lower_append, lower_dropLastChars, hves]
    · rw [lower_append, hs]

/-- A word with another end is found behind the same text if its first character stays. -/
theorem EndWord.replace {start rest more : List Char} (h : EndWord before (start ++ rest))
    (hstart : start ≠ []) (hsmall : ∀ c ∈ more, isSmall c = true)
    (hlow : startsLower more = true) : EndWord before (start ++ more) := by
  cases start with
  | nil => exact absurd rfl hstart
  | cons c start =>
    rw [List.cons_append] at h ⊢
    cases h with
    | bare hbefore _ hall =>
      apply EndWord.bare hbefore (List.cons_ne_nil _ _)
      rw [List.forall_mem_cons, List.forall_mem_append] at hall ⊢
      exact ⟨hall.1, hall.2.1, hsmall⟩
    | capital hc hbefore hall =>
      apply EndWord.capital hc
      · intro a ha hup
        have hnext := hbefore a ha hup
        cases start with
        | nil => exact hlow
        | cons d start => exact hnext
      · rw [List.forall_mem_append] at hall ⊢
        exact ⟨hall.1, hsmall⟩

/-- An irregular plural is found where its noun was. -/
theorem EndWord.matchCase {word many : String} (h : EndWord before word.toList)
    (hsmall : ∀ c ∈ many.toList, c.isLower = true) (hlength : 3 ≤ many.length) :
    EndWord before (matchCase word many).toList := by
  obtain ⟨a, b, rest, hmany⟩ : ∃ a b rest, many.toList = a :: b :: rest := by
    rw [← String.length_toList] at hlength
    cases hchars : many.toList with
    | nil => simp [hchars] at hlength
    | cons a more =>
      cases more with
      | nil => simp [hchars] at hlength
      | cons b rest => exact ⟨a, b, rest, rfl⟩
  generalize hword : word.toList = chars at h
  cases h with
  | bare hbefore hne hall =>
    rw [matchCase_of_isSmall (hword ▸ hall)]
    apply EndWord.bare hbefore
    · rw [hmany]
      exact List.cons_ne_nil _ _
    · intro c hc
      exact isSmall_of_isLower (hsmall c hc)
  | capital hc hbefore hall =>
    have hcapital : (Name.matchCase word many).toList = a.toUpper :: b :: rest := by
      unfold Name.matchCase
      rw [hword]
      simp only [hc, if_true]
      rw [capitalize, String.toList_ofList, hmany]
      rfl
    rw [hmany, List.forall_mem_cons, List.forall_mem_cons] at hsmall
    rw [hcapital]
    apply EndWord.capital
    · simp [Char.isAlpha, hsmall.1]
    · intro _ _ _
      exact hsmall.2.1
    · rw [List.forall_mem_cons]
      exact ⟨isSmall_of_isLower hsmall.2.1, fun c hc ↦ isSmall_of_isLower (hsmall.2.2 c hc)⟩

/-- The plural of a word is found where the word was, unless all of it is replaced. -/
theorem EndWord.plural {word : String} (h : EndWord before word.toList) (hf : lower word ≠ "f")
    (hfe : lower word ≠ "fe") : EndWord before (plural word).toList := by
  have hne : word ≠ "" := mt String.toList_eq_nil_iff.2 h.ne_nil
  -- The last characters are dropped, but not the first one, and an ending is put there.
  have hdrop (n : ℕ) (ending : String) (hn : n < word.length)
      (hending : (ending.toList.all isSmall && startsLower ending.toList) = true) :
      EndWord before (dropLastChars n word ++ ending).toList := by
    rw [String.toList_append, toList_dropLastChars]
    have hsplit := List.take_append_drop (word.length - n) word.toList
    rw [← hsplit] at h
    rw [Bool.and_eq_true, List.all_eq_true] at hending
    apply h.replace _ hending.1 hending.2
    rw [ne_eq, List.take_eq_nil_iff, not_or]
    exact ⟨by omega, mt String.toList_eq_nil_iff.1 hne⟩
  have hadd (ending : String)
      (hending : (ending.toList.all isSmall && startsLower ending.toList) = true) :
      EndWord before (word ++ ending).toList := by
    have hpos : 0 < word.length := by
      rw [← String.length_toList, List.length_pos_iff]
      exact h.ne_nil
    have hall := hdrop 0 ending hpos hending
    rwa [show dropLastChars 0 word = word by
      apply String.toList_injective
      rw [toList_dropLastChars, Nat.sub_zero, ← String.length_toList, List.take_length]] at hall
  -- A word that is not all of its ending has a character before it.
  have hlonger (ending : String) (hend : endsWith (lower word) ending = true)
      (hword : lower word ≠ ending) : ending.length < word.length := by
    obtain ⟨start, hstart⟩ := exists_append_of_endsWith hend
    have hlength : (lower word).length = start.length + ending.length := by
      rw [hstart, String.length_append]
    have hpos : start.length ≠ 0 := by
      intro hzero
      rw [String.length_eq_zero_iff] at hzero
      rw [hzero, String.empty_append] at hstart
      exact hword hstart
    rw [length_lower] at hlength
    omega
  unfold Name.plural
  rw [lastWord_alone h.alone, beq_eq_false_iff_ne.2 hne]
  simp only [Bool.false_eq_true, if_false, String.empty_append]
  cases hmany : irregularPlural? (lower word) with
  | some many =>
    have hspec := irregularNouns_spec _ (mem_of_irregularPlural? hmany)
    exact h.matchCase hspec.2.1 hspec.2.2.2
  | none =>
    dsimp only
    split_ifs with _ _ _ hy hends hends
    · exact h
    · exact hadd "es" rfl
    · exact h
    · have hlength := lt_length_of_consonantFromEnd (Bool.and_eq_true_iff.1 hy).2
      rw [length_lower] at hlength
      exact hdrop 1 "ies" hlength rfl
    · exact hdrop 2 "ves" (hlonger "fe" hends hfe) rfl
    · exact hdrop 1 "ves" (hlonger "f" (Bool.and_eq_true_iff.1 hends).1 hf) rfl
    · exact hadd "s" rfl

end Scaffold.Name
