import Mathlib
import Scaffold.Name.Words

/-!
# Runs of letters and digits

Cutting a text into runs drops what is neither a letter nor a digit, and no more: whatever joins the
characters of a run, the runs hold the letters and digits of the text in order (`flatten_runs`).
Characters that are joined to each other and not to what stands behind them are one run of the text
that starts with them (`runs_append`).
-/

namespace Scaffold.Name

open Text

variable {joins : Char → List Char → Bool} {c : Char} {l run rest : List Char}
  {rs : List (List Char)}

/-! ## Capitals, small letters and digits -/

theorem isAlpha_of_isUpper (h : c.isUpper = true) : c.isAlpha = true := by
  rw [Char.isAlpha, h, Bool.true_or]

theorem isAlpha_of_isLower (h : c.isLower = true) : c.isAlpha = true := by
  rw [Char.isAlpha, h, Bool.or_true]

theorem isAlphanum_of_isAlpha (h : c.isAlpha = true) : c.isAlphanum = true := by
  rw [Char.isAlphanum, h, Bool.true_or]

theorem isAlphanum_of_isDigit (h : c.isDigit = true) : c.isAlphanum = true := by
  rw [Char.isAlphanum, h, Bool.or_true]

theorem isUpper_or_isLower_or_isDigit (h : c.isAlphanum = true) :
    c.isUpper = true ∨ c.isLower = true ∨ c.isDigit = true := by
  simpa [Char.isAlphanum, Char.isAlpha, or_assoc] using h

theorem not_isAlpha_of_isDigit (h : c.isDigit = true) : c.isAlpha = false := by
  simp only [Char.isDigit, Char.isAlpha, Char.isUpper, Char.isLower, Bool.and_eq_true,
    decide_eq_true_eq, UInt32.le_iff_toNat_le, ge_iff_le, Bool.or_eq_false_iff,
    Bool.and_eq_false_iff, decide_eq_false_iff_not] at h ⊢
  change 48 ≤ c.toNat ∧ c.toNat ≤ 57 at h
  change ¬(65 ≤ c.toNat ∧ c.toNat ≤ 90) ∧ (¬97 ≤ c.toNat ∨ ¬c.toNat ≤ 122)
  omega

theorem not_isDigit_of_isAlpha (h : c.isAlpha = true) : c.isDigit = false := by
  by_contra hdigit
  rw [Bool.not_eq_false] at hdigit
  rw [not_isAlpha_of_isDigit hdigit] at h
  cases h

theorem not_isUpper_of_isDigit (h : c.isDigit = true) : c.isUpper = false :=
  (Bool.or_eq_false_iff.1 (not_isAlpha_of_isDigit h)).1

theorem not_isLower_of_isDigit (h : c.isDigit = true) : c.isLower = false :=
  (Bool.or_eq_false_iff.1 (not_isAlpha_of_isDigit h)).2

/-! ## The runs of a text -/

theorem runs_cons_of_joins (hc : c.isAlphanum = true) (h : joins c rest = true) :
    runs joins (c :: rest) = attach c (runs joins rest) := by
  rw [runs, hc, h]
  rfl

theorem runs_cons_of_not_joins (hc : c.isAlphanum = true) (h : joins c rest = false) :
    runs joins (c :: rest) = [c] :: runs joins rest := by
  rw [runs, hc, h]
  rfl

theorem runs_cons_of_not_isAlphanum (h : c.isAlphanum = false) :
    runs joins (c :: rest) = runs joins rest := by
  rw [runs, h]
  rfl

theorem flatten_attach (c : Char) (rs : List (List Char)) :
    (attach c rs).flatten = c :: rs.flatten := by
  cases rs <;> simp [attach]

/-- Runs lose and repeat nothing. -/
theorem flatten_runs (joins : Char → List Char → Bool) (l : List Char) :
    (runs joins l).flatten = l.filter Char.isAlphanum := by
  fun_induction runs joins l with
  | case1 => rfl
  | case2 c rest hc ih =>
    rw [ih, List.filter_cons_of_neg (by simpa using hc)]
  | case3 c rest hc _ ih =>
    rw [flatten_attach, ih, List.filter_cons_of_pos (by simpa using hc)]
  | case4 c rest hc _ ih =>
    rw [List.flatten_cons, List.singleton_append, ih, List.filter_cons_of_pos (by simpa using hc)]

theorem isAlphanum_of_mem_runs (h : run ∈ runs joins l) (hc : c ∈ run) : c.isAlphanum = true := by
  have hmem : c ∈ (runs joins l).flatten := List.mem_flatten.2 ⟨run, h, hc⟩
  rw [flatten_runs] at hmem
  exact (List.mem_filter.1 hmem).2

theorem ne_nil_of_mem_attach (hrs : ∀ run ∈ rs, run ≠ []) (h : run ∈ attach c rs) : run ≠ [] := by
  cases rs with
  | nil =>
    rw [List.mem_singleton.1 h]
    exact List.cons_ne_nil c []
  | cons first more =>
    cases h with
    | head => exact List.cons_ne_nil c first
    | tail _ hmore => exact hrs run (List.mem_cons_of_mem first hmore)

theorem ne_nil_of_mem_runs (h : run ∈ runs joins l) : run ≠ [] := by
  fun_induction runs joins l generalizing run with
  | case1 => cases h
  | case2 c rest hc ih => exact ih h
  | case3 c rest hc hjoin ih => exact ne_nil_of_mem_attach (fun _ ↦ ih) h
  | case4 c rest hc hjoin ih =>
    cases h with
    | head => exact List.cons_ne_nil c []
    | tail _ hmore => exact ih hmore

/-- A letter or digit starts the first run of what it stands in front of. -/
theorem exists_runs_cons (joins : Char → List Char → Bool) (rest : List Char)
    (hc : c.isAlphanum = true) : ∃ run rs, runs joins (c :: rest) = (c :: run) :: rs := by
  cases hjoin : joins c rest with
  | true =>
    rw [runs_cons_of_joins hc hjoin]
    cases runs joins rest with
    | nil => exact ⟨[], [], rfl⟩
    | cons run rs => exact ⟨run, rs, rfl⟩
  | false => exact ⟨[], runs joins rest, runs_cons_of_not_joins hc hjoin⟩

/-! ## One run -/

/-- Letters and digits that are joined to each other but not to the text behind them. -/
def IsRun (joins : Char → List Char → Bool) (behind : List Char) : List Char → Prop
  | [] => False
  | [c] => c.isAlphanum = true ∧ joins c behind = false
  | c :: d :: more =>
    c.isAlphanum = true ∧ joins c (d :: more ++ behind) = true ∧ IsRun joins behind (d :: more)

/-- A run in front of a text is cut off it. -/
theorem runs_append (h : IsRun joins rest run) :
    runs joins (run ++ rest) = run :: runs joins rest := by
  induction run with
  | nil => cases h
  | cons c more ih =>
    cases more with
    | nil => exact runs_cons_of_not_joins h.1 h.2
    | cons d more =>
      obtain ⟨hc, hjoin, hmore⟩ := h
      rw [List.cons_append, runs_cons_of_joins hc hjoin, ih hmore]
      rfl

/-- Characters of one kind are a run if any two of them are joined and the last one is joined to
nothing. -/
theorem isRun_of_forall {p : Char → Bool} (hne : run ≠ []) (hrun : ∀ c ∈ run, p c = true)
    (halnum : ∀ c, p c = true → c.isAlphanum = true)
    (hjoins : ∀ c d more, p c = true → p d = true → joins c (d :: more) = true)
    (hends : ∀ c, p c = true → joins c rest = false) : IsRun joins rest run := by
  induction run with
  | nil => exact absurd rfl hne
  | cons c more ih =>
    rw [List.forall_mem_cons] at hrun
    cases more with
    | nil => exact ⟨halnum c hrun.1, hends c hrun.1⟩
    | cons d more =>
      have hd := hrun.2 d List.mem_cons_self
      have hmore := ih (List.cons_ne_nil d more) hrun.2
      exact ⟨halnum c hrun.1, hjoins c d (more ++ rest) hrun.1 hd, hmore⟩

/-- The longest start of one kind is a run if the kind alone decides what is joined. -/
theorem isRun_takeWhile {p : Char → Bool} (hc : p c = true)
    (halnum : ∀ a, p a = true → a.isAlphanum = true) (hnil : ∀ a, joins a [] = false)
    (hjoins : ∀ a d more, p a = true → joins a (d :: more) = p d) :
    IsRun joins ((c :: rest).dropWhile p) ((c :: rest).takeWhile p) := by
  refine isRun_of_forall ?_ (fun a ha ↦ List.mem_takeWhile_imp ha) halnum
    (fun a d more ha hd ↦ by rw [hjoins a d more ha, hd]) fun a ha ↦ ?_
  · rw [List.takeWhile_cons_of_pos hc]
    exact List.cons_ne_nil c _
  · have hfirst := List.head?_dropWhile_not p (c :: rest)
    cases hbehind : (c :: rest).dropWhile p with
    | nil => exact hnil a
    | cons d more =>
      rw [hbehind] at hfirst
      rw [hjoins a d more ha]
      exact hfirst

end Scaffold.Name
