import Mathlib
import Scaffold.Field.Column
import Scaffold.Proofs.Text.Trimming

/-!
# Decimal numerals

The decimal numbers as a grammar, over the digits of one script or of all (`IsNumeral`). The test
that decides whether a default is written bare accepts the numerals in the digits of all scripts.
-/

namespace Scaffold.Field

open Text

variable {digit : Char → Bool} {l m s : List Char}

/-- One digit or more. -/
def IsDigits (digit : Char → Bool) (l : List Char) : Prop := l ≠ [] ∧ ∀ c ∈ l, digit c = true

/-- A sign, or nothing. -/
inductive IsSign : List Char → Prop
  | absent : IsSign []
  | plus : IsSign ['+']
  | minus : IsSign ['-']

/-- Digits with a point among them, before them or after them, or without one. -/
inductive IsUnsigned (digit : Char → Bool) : List Char → Prop
  | whole {l : List Char} (h : IsDigits digit l) : IsUnsigned digit l
  | point {l m : List Char} (h : IsDigits digit (l ++ m)) : IsUnsigned digit (l ++ '.' :: m)

/-- A power of ten, or nothing. -/
inductive IsPower (digit : Char → Bool) : List Char → Prop
  | absent : IsPower digit []
  | present {e : Char} {s l : List Char} (he : e = 'e' ∨ e = 'E') (hs : IsSign s)
      (hl : IsDigits digit l) : IsPower digit (e :: (s ++ l))

/-- A decimal number in the given digits. -/
inductive IsNumeral (digit : Char → Bool) : List Char → Prop
  | mk {s l p : List Char} (hs : IsSign s) (hl : IsUnsigned digit l) (hp : IsPower digit p) :
      IsNumeral digit (s ++ (l ++ p))

theorem IsDigits.mono {digit' : Char → Bool} (hdigit : ∀ c, digit c = true → digit' c = true)
    (h : IsDigits digit l) : IsDigits digit' l := ⟨h.1, fun c hc ↦ hdigit c (h.2 c hc)⟩

/-- A numeral in some digits is one in more digits. -/
theorem IsNumeral.mono {digit' : Char → Bool} (hdigit : ∀ c, digit c = true → digit' c = true)
    (h : IsNumeral digit l) : IsNumeral digit' l := by
  obtain ⟨hs, hl, hp⟩ := h
  refine .mk hs ?_ ?_
  · cases hl with
    | whole h => exact .whole (h.mono hdigit)
    | point h => exact .point (h.mono hdigit)
  · cases hp with
    | absent => exact .absent
    | present he hs hl => exact .present he hs (hl.mono hdigit)

/-- A numeral has digits, signs, a point and the letter before a power. -/
theorem IsNumeral.mem (h : IsNumeral digit l) : ∀ c ∈ l, digit c = true ∨ c ∈ "+-.eE".toList := by
  obtain ⟨hs, hl, hp⟩ := h
  have hsign {s : List Char} (hs : IsSign s) : ∀ c ∈ s, digit c = true ∨ c ∈ "+-.eE".toList := by
    cases hs <;> simp
  refine List.forall_mem_append.2 ⟨hsign hs, List.forall_mem_append.2 ⟨?_, ?_⟩⟩
  · cases hl with
    | whole h => exact fun c hc ↦ .inl (h.2 c hc)
    | point h =>
      obtain ⟨hwhole, hfraction⟩ := List.forall_mem_append.1 h.2
      refine List.forall_mem_append.2 ⟨fun c hc ↦ .inl (hwhole c hc), ?_⟩
      exact List.forall_mem_cons.2 ⟨.inr (by simp), fun c hc ↦ .inl (hfraction c hc)⟩
  · cases hp with
    | absent => simp
    | present he hs hl =>
      refine List.forall_mem_cons.2 ⟨.inr (by rcases he with rfl | rfl <;> simp), ?_⟩
      exact List.forall_mem_append.2 ⟨hsign hs, fun c hc ↦ .inl (hl.2 c hc)⟩

/-! ## Reading the parts -/

/-- The text without a sign at its start. -/
def dropSign (l : List Char) : List Char :=
  match l with
  | c :: rest => if c == '+' || c == '-' then rest else l
  | [] => []

theorem exists_sign_append (l : List Char) : ∃ s, IsSign s ∧ l = s ++ dropSign l := by
  cases l with
  | nil => exact ⟨[], .absent, rfl⟩
  | cons c rest =>
    by_cases hplus : c = '+'
    · exact ⟨['+'], .plus, by simp [dropSign, hplus]⟩
    · by_cases hminus : c = '-'
      · exact ⟨['-'], .minus, by simp [dropSign, hminus]⟩
      · exact ⟨[], .absent, by simp [dropSign, hplus, hminus]⟩

theorem dropSign_append (hs : IsSign s) (hl : ∀ c ∈ l.head?, isDecimalDigit c = true ∨ c = '.') :
    dropSign (s ++ l) = l := by
  cases hs with
  | absent =>
    cases l with
    | nil => rfl
    | cons c rest =>
      have hc := hl c rfl
      have hplus : c ≠ '+' := by rintro rfl; revert hc; decide
      have hminus : c ≠ '-' := by rintro rfl; revert hc; decide
      simp [dropSign, hplus, hminus]
  | plus => rfl
  | minus => rfl

theorem isExponent_iff : isExponent l = true ↔ IsPower isDecimalDigit l := by
  cases l with
  | nil => exact iff_of_true rfl .absent
  | cons e rest =>
    have hdef : isExponent (e :: rest) = ((e == 'e' || e == 'E') && !(dropSign rest).isEmpty &&
      (dropSign rest).all isDecimalDigit) := rfl
    have htest : isExponent (e :: rest) = true ↔
        (e = 'e' ∨ e = 'E') ∧ IsDigits isDecimalDigit (dropSign rest) := by
      simp [hdef, IsDigits, and_assoc]
    rw [htest]
    constructor
    · rintro ⟨he, hdigits⟩
      obtain ⟨s, hs, hrest⟩ := exists_sign_append rest
      rw [hrest]
      exact .present he hs hdigits
    · rintro (_ | ⟨he, hs, hl⟩)
      rw [dropSign_append hs fun c hc ↦ .inl (hl.2 c (List.mem_of_mem_head? hc))]
      exact ⟨he, hl⟩

/-- What comes behind digits starts with none. -/
theorem IsPower.digit_ne (h : IsPower isDecimalDigit l) :
    ∀ c ∈ l.head?, isDecimalDigit c = false ∧ c ≠ '.' := by
  cases h with
  | absent => simp
  | present he =>
    intro c hc
    obtain rfl := Option.some.inj hc
    rcases he with rfl | rfl <;> decide

/-- A number without a sign starts with a digit or a point. -/
theorem IsUnsigned.head_append (h : IsUnsigned isDecimalDigit l) (m : List Char) :
    ∀ c ∈ (l ++ m).head?, isDecimalDigit c = true ∨ c = '.' := by
  have hdigits (l m : List Char) (hl : IsDigits isDecimalDigit l) :
      ∀ c ∈ (l ++ m).head?, isDecimalDigit c = true ∨ c = '.' := by
    rw [List.head?_append_of_ne_nil _ hl.1]
    exact fun c hc ↦ .inl (hl.2 c (List.mem_of_mem_head? hc))
  cases h with
  | whole h => exact hdigits l m h
  | @point w f h =>
    cases w with
    | nil => simp
    | cons c rest => exact fun d hd ↦ .inl (h.2 d (by simp_all))

/-- Is this a numeral without a sign? -/
def isUnsigned (l : List Char) : Bool :=
  match l.dropWhile isDecimalDigit with
  | '.' :: more =>
    !((l.takeWhile isDecimalDigit).isEmpty && (more.takeWhile isDecimalDigit).isEmpty) &&
      isExponent (more.dropWhile isDecimalDigit)
  | _ => !(l.takeWhile isDecimalDigit).isEmpty && isExponent (l.dropWhile isDecimalDigit)

theorem isNumeral_eq (l : List Char) : isNumeral l = isUnsigned (dropSign l) := rfl

theorem isUnsigned_iff : isUnsigned l = true ↔
    ∃ u p, l = u ++ p ∧ IsUnsigned isDecimalDigit u ∧ IsPower isDecimalDigit p := by
  constructor
  · intro h
    have hl : l = l.takeWhile isDecimalDigit ++ l.dropWhile isDecimalDigit :=
      (List.takeWhile_append_dropWhile).symm
    have hdigits : ∀ c ∈ l.takeWhile isDecimalDigit, isDecimalDigit c = true :=
      fun c ↦ List.mem_takeWhile_imp
    rw [isUnsigned] at h
    generalize l.takeWhile isDecimalDigit = whole at *
    split at h
    · next more hrest =>
      have hmore : more = more.takeWhile isDecimalDigit ++ more.dropWhile isDecimalDigit :=
        (List.takeWhile_append_dropWhile).symm
      have hdigits' : ∀ c ∈ more.takeWhile isDecimalDigit, isDecimalDigit c = true :=
        fun c ↦ List.mem_takeWhile_imp
      generalize more.takeWhile isDecimalDigit = fraction at *
      rw [Bool.and_eq_true, isExponent_iff] at h
      refine ⟨whole ++ '.' :: fraction, _, ?_, .point ⟨?_, ?_⟩, h.2⟩
      · rw [List.append_assoc, List.cons_append, ← hmore, ← hrest]
        exact hl
      · simpa [or_iff_not_imp_left] using h.1
      · exact List.forall_mem_append.2 ⟨hdigits, hdigits'⟩
    · rw [Bool.and_eq_true, isExponent_iff] at h
      exact ⟨whole, _, hl, .whole ⟨by simpa using h.1, hdigits⟩, h.2⟩
  · rintro ⟨u, p, rfl, hu, hp⟩
    cases hu with
    | whole hu =>
      obtain ⟨htake, hdrop⟩ := takeWhile_dropWhile_append hu.2 fun c hc ↦ (hp.digit_ne c hc).1
      rw [isUnsigned, htake, hdrop]
      split
      · exact absurd rfl (hp.digit_ne '.' rfl).2
      · simpa [isExponent_iff, hp] using hu.1
    | @point w f hu =>
      obtain ⟨hw, hf⟩ := List.forall_mem_append.1 hu.2
      rw [List.append_assoc, List.cons_append]
      obtain ⟨htake, hdrop⟩ := takeWhile_dropWhile_append (m := '.' :: (f ++ p)) hw
        fun c hc ↦ by obtain rfl := Option.some.inj hc; decide
      obtain ⟨htake', hdrop'⟩ :=
        takeWhile_dropWhile_append hf fun c hc ↦ (hp.digit_ne c hc).1
      rw [isUnsigned, htake, hdrop]
      simpa [htake', hdrop', isExponent_iff, hp, or_iff_not_imp_left] using hu.1

/-- The test for numerals accepts what the grammar describes. -/
theorem isNumeral_iff : isNumeral l = true ↔ IsNumeral isDecimalDigit l := by
  rw [isNumeral_eq, isUnsigned_iff]
  constructor
  · rintro ⟨u, p, hl, hu, hp⟩
    obtain ⟨s, hs, hsign⟩ := exists_sign_append l
    rw [hsign, hl]
    exact .mk hs hu hp
  · rintro ⟨hs, hu, hp⟩
    refine ⟨_, _, dropSign_append hs ?_, hu, hp⟩
    exact hu.head_append _

end Scaffold.Field
