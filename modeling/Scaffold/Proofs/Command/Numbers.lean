import Scaffold.Command.Line
import Scaffold.Proofs.Text.Trimming

/-!
# Numbers on a command line

An integer in decimal digits is an operand for every set of options in which no option looks like a
number, and an option that takes an integer reads it back unless it has too many digits.
-/

namespace Scaffold

variable {c : Char} {l : List Char}

/-! ## Digits -/

/-- Decimal digits, with a sign in front if they stand for a number below zero. -/
theorem toList_toString_int (n : ℤ) :
    (toString n).toList = (if n < 0 then ['-'] else []) ++ Nat.toDigits 10 n.natAbs := by
  cases n <;> simp [toString, Int.repr]

theorem isDigit_of_mem_toDigits {n : ℕ} (h : c ∈ Nat.toDigits 10 n) : c.isDigit = true :=
  Nat.isDigit_of_mem_toDigits (by decide) (by decide) h

namespace Text

theorem isSpacing_of_isDigit (h : c.isDigit = true) : isSpacing c = false := by
  rw [Char.isDigit_iff_toNat] at h
  have hlow : 48 ≤ c.toNat := h.1
  have hhigh : c.toNat ≤ 57 := h.2
  simp only [isSpacing, isBlank, Bool.and_eq_false_iff, Bool.or_eq_false_iff, decide_eq_false_iff_not,
    beq_eq_false_iff_ne]
  omega

theorem digitValue?_of_isDigit (h : c.isDigit = true) :
    digitValue? c = some (c.toNat - '0'.toNat) := by
  rw [Char.isDigit_iff_toNat] at h
  have hlow : 0x30 ≤ c.toNat := h.1
  have hhigh : c.toNat < 0x30 + 10 := Nat.lt_succ_of_le h.2
  rw [digitValue?, zeroDigits, List.find?_cons_of_pos (by simp [hlow, hhigh])]
  rfl

/-- Plain digits are read as the number that they stand for. -/
theorem digitRun?_of_isDigit (hl : l ≠ []) (h : ∀ c ∈ l, c.isDigit = true) (n : ℕ) :
    digitRun? digitValue? l n = some (Nat.ofDigitChars 10 l n) := by
  induction l generalizing n with
  | nil => exact absurd rfl hl
  | cons c rest ih =>
    rw [List.forall_mem_cons] at h
    rw [Nat.ofDigitChars_cons, mul_comm]
    cases rest with
    | nil => simp [digitRun?, digitValue?_of_isDigit h.1, Nat.ofDigitChars]
    | cons next rest =>
      have hnext : next ≠ '_' := by
        rintro rfl
        exact absurd (h.2 '_' List.mem_cons_self) (by decide)
      simp only [digitRun?, digitValue?_of_isDigit h.1, beq_iff_eq, hnext, if_false]
      exact ih (by simp) h.2 _

end Text

open Text

namespace OptionUse

theorem natural?_toDigits (n : ℕ) :
    natural? (Nat.toDigits 10 n) = if n < 10 ^ maxDigits then some n else none := by
  have hcount : (Nat.toDigits 10 n).countP isDecimalDigit = (Nat.toDigits 10 n).length :=
    List.countP_eq_length.2 fun c hc ↦ isDecimalDigit_of_isDigit (isDigit_of_mem_toDigits hc)
  have hfew : maxDigits < (Nat.toDigits 10 n).length ↔ ¬n < 10 ^ maxDigits := by
    rw [← Nat.length_toDigits_le_iff (by decide) (by decide), not_le]
  rw [natural?, hcount, digitRun?_of_isDigit Nat.toDigits_ne_nil fun c ↦ isDigit_of_mem_toDigits,
    Nat.ofDigitChars_ten_toDigits]
  simp only [hfew, ite_not]

/-- Nothing is trimmed off an integer. -/
theorem trim_toString (n : ℤ) : trim isSpacing (toString n).toList = (toString n).toList := by
  have hsign : isSpacing '-' = false := by decide
  have hall : ∀ c ∈ (toString n).toList, isSpacing c = false := by
    intro c hc
    rw [toList_toString_int, List.mem_append] at hc
    rcases hc with hc | hc
    · split at hc
      · rw [List.mem_singleton.1 hc, hsign]
      · cases hc
    · exact isSpacing_of_isDigit (isDigit_of_mem_toDigits hc)
  exact trim_eq_self_iff.2
    ⟨fun c hc ↦ hall c (List.mem_of_mem_head? hc), fun c hc ↦ hall c (List.mem_of_getLast? hc)⟩

/-- Digits do not start with a sign. -/
theorem toDigits_ne_cons (n : ℕ) {sign : Char} (hsign : sign.isDigit = false) (rest : List Char) :
    Nat.toDigits 10 n ≠ sign :: rest := by
  intro heq
  have hdigit : sign.isDigit = true := isDigit_of_mem_toDigits (heq ▸ List.mem_cons_self)
  rw [hsign] at hdigit
  cases hdigit

/-- An integer is read back exactly if it does not have too many digits. -/
theorem integer?_toString (n : ℤ) :
    integer? (toString n) = if n.natAbs < 10 ^ maxDigits then some n else none := by
  rw [integer?, trim_toString, toList_toString_int]
  by_cases hn : n < 0
  · have hneg : -(n.natAbs : ℤ) = n := by omega
    rw [if_pos hn, List.singleton_append]
    simp only [natural?_toDigits]
    split
    · exact congrArg some hneg
    · rfl
  · have hpos : Int.ofNat n.natAbs = n := Int.natAbs_of_nonneg (not_lt.1 hn)
    rw [if_neg hn, List.nil_append]
    split
    · next heq => exact absurd heq (toDigits_ne_cons _ (by decide) _)
    · next heq => exact absurd heq (toDigits_ne_cons _ (by decide) _)
    · rw [natural?_toDigits, apply_ite (Option.map _), Option.map_some, hpos, Option.map_none]

end OptionUse

/-! ## Words -/

namespace CommandWord

variable {options : List CommandOption}

/-- Does no option look like a number below zero? -/
def sparesNumbers (options : List CommandOption) : Bool :=
  (spellings options).all fun s ↦ s.2.toList[1]?.all fun c ↦ !c.isDigit

theorem toList_ne_number (h : sparesNumbers options = true) {s : CommandOption × String}
    (hs : s ∈ spellings options) (hc : c.isDigit = true) (rest : List Char) :
    s.2.toList ≠ '-' :: c :: rest := by
  intro heq
  have hno := List.all_eq_true.1 h s hs
  simp [heq, hc] at hno

theorem named?_number (h : sparesNumbers options = true) {word : String}
    (hword : word.toList = '-' :: c :: l) (hc : c.isDigit = true) : named? options word = none := by
  refine List.find?_eq_none.2 fun o ho hname ↦ ?_
  have hs : (o, word) ∈ spellings options :=
    List.mem_flatMap.2 ⟨o, ho, List.mem_map_of_mem (by simpa using hname)⟩
  exact toList_ne_number h hs hc _ hword

/-- No option is a number in short. -/
theorem candidates_number (h : sparesNumbers options = true) {word : String}
    (hword : word.toList = '-' :: c :: l) (hc : c.isDigit = true) : candidates options word = [] := by
  have hlong : startsWith word "--" = false := by
    have hne : '-' ≠ c := by
      rintro rfl
      exact absurd hc (by decide)
    simp [startsWith, hword, List.isPrefixOf, hne]
  rw [candidates, hlong]
  refine List.filterMap_eq_nil_iff.2 fun ⟨o, name⟩ hs ↦ ?_
  have hshort : name ≠ String.ofList (word.toList.take 2) := by
    rintro rfl
    refine toList_ne_number h hs hc [] ?_
    rw [String.toList_ofList, hword]
    rfl
  have hstart : startsWith name word = false := by
    rw [startsWith, Bool.eq_false_iff, Ne, List.isPrefixOf_iff_prefix, hword]
    rintro ⟨more, hmore⟩
    exact toList_ne_number h hs hc _ hmore.symm
  simp [hshort, hstart]

/-- An integer is an operand where no option looks like a number. -/
theorem ofText_toString (h : sparesNumbers options = true) (n : ℤ) :
    ofText options (toString n) = .ok (.operand (toString n)) := by
  have hdigits : Nat.toDigits 10 n.natAbs ≠ [] := Nat.toDigits_ne_nil
  obtain ⟨c, rest, heq⟩ := List.exists_cons_of_ne_nil hdigits
  have hall : ∀ d ∈ c :: rest, d.isDigit = true := fun d hd ↦ isDigit_of_mem_toDigits (heq ▸ hd)
  have hc : c.isDigit = true := hall c List.mem_cons_self
  have hlist := toList_toString_int n
  rw [heq] at hlist
  generalize toString n = word at *
  by_cases hn : n < 0
  · rw [if_pos hn, List.singleton_append] at hlist
    have hvalue : splitValue word = (word, none) := by
      have hno : '=' ∉ word.toList := by
        rw [hlist, List.mem_cons, not_or]
        exact ⟨by decide, fun hmem ↦ absurd (hall _ hmem) (by decide)⟩
      rw [splitValue, if_neg (by simpa using hno)]
    have hnegative : isNegativeNumber word = true := by
      have hwhole : (c :: rest).takeWhile isDecimalDigit = c :: rest :=
        List.takeWhile_eq_self_iff.2 fun d hd ↦ isDecimalDigit_of_isDigit (hall d hd)
      simp only [isNegativeNumber, hlist, hwhole, List.drop_length, List.isEmpty_cons, Bool.not_false]
    simp [ofText, hvalue, named?_number h hlist hc, candidates_number h hlist hc, hnegative]
  · rw [if_neg hn, List.nil_append] at hlist
    have hstart : startsWith word "-" = false := by
      have hne : '-' ≠ c := by
        rintro rfl
        exact absurd hc (by decide)
      simp [startsWith, hlist, List.isPrefixOf, hne]
    rw [ofText, hstart]
    rfl

end CommandWord

end Scaffold
