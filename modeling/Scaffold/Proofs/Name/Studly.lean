import Mathlib
import Scaffold.Name.Case
import Scaffold.Proofs.Name.Runs

/-!
# Studly case of studly names

Studly case is one pass over a name (`recase`): a character is a small letter if it stays in one
word with the character before it, and a capital otherwise. On a name that is studly already the
pass only lowers capitals that follow a capital without being followed by a small letter, so
`ABC` becomes `Abc`. A second pass finds nothing left to lower: studly case is stable from the
second application on, but not from the first.
-/

namespace Scaffold.Name

/-- Does `c` stay in one word with the character before it? -/
def staysWith (before : Option Char) (c : Char) (rest : List Char) : Bool :=
  match before with
  | none => false
  | some a => sameWord a (c :: rest)

/-- Studly case in one pass; `before` is the character before, if it belongs to a word. -/
def recase : Option Char → List Char → List Char
  | _, [] => []
  | before, c :: rest =>
    if !c.isAlphanum then recase none rest
    else (if staysWith before c rest then c.toLower else c.toUpper) :: recase (some c) rest

/-- The runs of a name, each with a capital first. -/
def capitalRuns (rs : List (List Char)) : List Char :=
  rs.flatMap fun run ↦ capitalizeChars (run.map Char.toLower)

/-- The same if the first run goes on with what stands before. -/
def continuedRuns : List (List Char) → List Char
  | [] => []
  | run :: rest => run.map Char.toLower ++ capitalRuns rest

theorem capitalRuns_attach (c : Char) (rs : List (List Char)) :
    capitalRuns (Text.attach c rs) = c.toUpper :: continuedRuns rs := by
  cases rs <;> simp [Text.attach, capitalRuns, continuedRuns, capitalizeChars]

theorem continuedRuns_attach (c : Char) (rs : List (List Char)) :
    continuedRuns (Text.attach c rs) = c.toLower :: continuedRuns rs := by
  cases rs <;> simp [Text.attach, continuedRuns, capitalRuns]

theorem capitalRuns_singleton (c : Char) (rs : List (List Char)) :
    capitalRuns ([c] :: rs) = c.toUpper :: capitalRuns rs := by
  simp [capitalRuns, capitalizeChars]

theorem sameWord_of_not_isAlphanum {a c : Char} (rest : List Char) (h : c.isAlphanum = false) :
    sameWord a (c :: rest) = false := by
  simp only [Char.isAlphanum, Char.isAlpha, Bool.or_eq_false_iff] at h
  simp [sameWord, h]

/-- The pass gives the runs back, the first one as the continuation of a word or as a word. -/
theorem recase_eq_runs (l : List Char) :
    recase none l = capitalRuns (runs sameWord l) ∧
      ∀ a, recase (some a) l =
        if sameWord a l then continuedRuns (runs sameWord l)
        else capitalRuns (runs sameWord l) := by
  induction l with
  | nil => simp [recase, sameWord, runs, capitalRuns]
  | cons c rest ih =>
    obtain ⟨hnone, hsome⟩ := ih
    by_cases hc : c.isAlphanum
    · by_cases hjoin : sameWord c rest
      · have hruns : runs sameWord (c :: rest) = Text.attach c (runs sameWord rest) :=
          runs_cons_of_joins hc hjoin
        simp only [recase, staysWith, hc, hsome, hjoin, hruns, capitalRuns_attach,
          continuedRuns_attach, Bool.not_true, Bool.false_eq_true, if_false, if_true, true_and]
        intro a
        by_cases hstay : sameWord a (c :: rest) <;> simp [hstay]
      · have hruns : runs sameWord (c :: rest) = [c] :: runs sameWord rest :=
          runs_cons_of_not_joins hc (Bool.eq_false_iff.2 hjoin)
        simp only [recase, staysWith, hc, hsome, hjoin, hruns, capitalRuns_singleton,
          continuedRuns, Bool.not_true, Bool.false_eq_true, if_false, true_and]
        intro a
        by_cases hstay : sameWord a (c :: rest) <;> simp [hstay]
    · rw [Bool.not_eq_true] at hc
      simp [recase, runs, hc, hnone, sameWord_of_not_isAlphanum rest hc]

theorem toList_studly (name : String) : (studly name).toList = recase none name.toList := by
  rw [(recase_eq_runs _).1, studly, String.toList_join, words, capitalRuns]
  simp only [List.map_map, List.flatMap_map]
  congr 1
  funext run
  simp [capitalize]

/-! ## Names that are studly already -/

/-- Letters and digits, with small letters only after letters; `before` is the character
before. -/
def StudlyShaped : Option Char → List Char → Prop
  | _, [] => True
  | before, c :: rest =>
    c.isAlphanum ∧ (c.isLower → ∃ a ∈ before, a.isAlpha) ∧ StudlyShaped (some c) rest

theorem toLower_of_isDigit {c : Char} (h : c.isDigit) : c.toLower = c := by
  apply Char.toLower_eq_of_not_isUpper
  rw [not_isUpper_of_isDigit h]
  exact Bool.false_ne_true

theorem toUpper_of_isDigit {c : Char} (h : c.isDigit) : c.toUpper = c := by
  apply Char.toUpper_eq_of_not_isLower
  rw [not_isLower_of_isDigit h]
  exact Bool.false_ne_true

/-- A letter stays in one word only with a letter. -/
theorem isAlpha_of_sameWord {a c : Char} {rest : List Char} (h : sameWord a (c :: rest))
    (hc : c.isAlpha) : a.isAlpha := by
  have hdigit : c.isDigit = false := not_isDigit_of_isAlpha hc
  simp only [sameWord, hdigit, Bool.false_and, Bool.or_false, Bool.or_eq_true,
    Bool.and_eq_true] at h
  rcases h with ⟨-, h | h⟩ | ⟨⟨-, h⟩, -⟩ <;> simp [Char.isAlpha, h]

/-- Studly case of any text is studly shaped. -/
theorem studlyShaped_recase (l : List Char) {before before' : Option Char}
    (h : ∀ a ∈ before, a.isAlpha → ∃ b ∈ before', b.isAlpha) :
    StudlyShaped before' (recase before l) := by
  induction l generalizing before before' with
  | nil => simp [recase, StudlyShaped]
  | cons c rest ih =>
    by_cases hc : c.isAlphanum
    · simp only [recase, hc, Bool.not_true, Bool.false_eq_true, if_false]
      by_cases hstay : staysWith before c rest
      · rw [if_pos hstay]
        refine ⟨?_, ?_, ih ?_⟩
        · rcases Bool.or_eq_true _ _ ▸ hc with ha | hd
          · simp [Char.isAlphanum, ha]
          · simp [toLower_of_isDigit hd, Char.isAlphanum, hd]
        · intro hl
          rw [Char.isLower_toLower_eq_isAlpha] at hl
          cases before with
          | none => simp [staysWith] at hstay
          | some a => exact h a rfl (isAlpha_of_sameWord hstay hl)
        · rintro a ⟨⟩ ha
          exact ⟨c.toLower, rfl, by simpa using ha⟩
      · rw [if_neg hstay]
        refine ⟨?_, ?_, ih ?_⟩
        · rcases Bool.or_eq_true _ _ ▸ hc with ha | hd
          · simp [Char.isAlphanum, ha]
          · simp [toUpper_of_isDigit hd, Char.isAlphanum, hd]
        · simp
        · rintro a ⟨⟩ ha
          exact ⟨c.toUpper, rfl, by simpa using ha⟩
    · simp only [recase, hc, Bool.not_false, if_true]
      exact ih (by simp)

theorem StudlyShaped.isAlphanum {before : Option Char} {l : List Char} (h : StudlyShaped before l) :
    ∀ c ∈ l, c.isAlphanum = true := by
  induction l generalizing before with
  | nil => simp
  | cons x rest ih =>
    intro c hc
    rcases List.mem_cons.1 hc with rfl | hc
    · exact h.1
    · exact ih h.2.2 c hc

/-- A name in studly case is made of letters and digits. -/
theorem isAlphanum_of_mem_studly {name : String} :
    ∀ c ∈ (studly name).toList, c.isAlphanum = true := by
  have hshaped : StudlyShaped none (recase none name.toList) := studlyShaped_recase _ (by simp)
  rw [toList_studly]
  exact hshaped.isAlphanum

/-! ## Names in snake case -/

@[simp] theorem isAlphanum_toLower (c : Char) : c.toLower.isAlphanum = c.isAlphanum := by
  by_cases hd : c.isDigit
  · rw [toLower_of_isDigit hd]
  · by_cases ha : c.isAlpha
    · simp [Char.isAlphanum, ha]
    · rw [Char.toLower_eq_of_not_isUpper fun hu ↦ ha (by simp [Char.isAlpha, hu])]

theorem mem_of_mem_intercalate {sep : List Char} {ls : List (List Char)} {c : Char}
    (h : c ∈ sep.intercalate ls) : c ∈ sep ∨ ∃ l ∈ ls, c ∈ l := by
  induction ls with
  | nil => simp at h
  | cons l rest ih =>
    cases rest with
    | nil => exact .inr ⟨l, by simp, by simpa using h⟩
    | cons next more =>
      rw [List.intercalate_cons_cons, List.mem_append, List.mem_append] at h
      rcases h with (h | h) | h
      · exact .inr ⟨l, by simp, h⟩
      · exact .inl h
      · exact (ih h).imp_right fun ⟨x, hx, hc⟩ ↦ ⟨x, by simp [hx], hc⟩

/-- A name in snake case is made of letters, digits and underscores. -/
theorem isAlphanum_of_mem_snake {name : String} :
    ∀ c ∈ (snake name).toList, c.isAlphanum = true ∨ c = '_' := by
  intro c hc
  rw [snake, String.toList_intercalate] at hc
  rcases mem_of_mem_intercalate hc with hc | ⟨l, hl, hc⟩
  · exact .inr (by simpa using hc)
  · rw [List.map_map] at hl
    obtain ⟨run, hrun, rfl⟩ := List.mem_map.1 hl
    rw [Function.comp_apply, String.toList_ofList] at hc
    obtain ⟨x, hx, rfl⟩ := List.mem_map.1 hc
    exact .inl ((isAlphanum_toLower x).trans (isAlphanum_of_mem_runs hrun hx))

theorem staysWith_of_isLower {before : Option Char} {c : Char} (rest : List Char)
    (hc : c.isLower) : staysWith before c rest = true ↔ ∃ a ∈ before, a.isAlpha := by
  have hu : c.isUpper = false := by simpa using Char.not_isUpper_of_isLower hc
  cases before with
  | none => simp [staysWith]
  | some a =>
    have hd : c.isDigit = false := not_isDigit_of_isAlpha (isAlpha_of_isLower hc)
    simp [staysWith, sameWord, hc, hu, hd, Char.isAlpha, or_comm]

theorem staysWith_of_isUpper {before : Option Char} {c : Char} (rest : List Char)
    (hc : c.isUpper) :
    staysWith before c rest = true ↔ (∃ a ∈ before, a.isUpper) ∧ startsLower rest = false := by
  have hl : c.isLower = false := by simpa using Char.not_isLower_of_isUpper hc
  cases before with
  | none => simp [staysWith]
  | some a =>
    have hd : c.isDigit = false := not_isDigit_of_isAlpha (isAlpha_of_isUpper hc)
    simp [staysWith, sameWord, hc, hl, hd]

/-- What is said of the character before a place and the one before it after a pass: the pass
makes no new capitals and keeps letters letters. -/
structure Lowered (before before' : Option Char) : Prop where
  upper : ∀ b ∈ before', b.isUpper → ∃ a ∈ before, a.isUpper
  alpha : ∀ a ∈ before, a.isAlpha → ∃ b ∈ before', b.isAlpha

theorem Lowered.refl (before : Option Char) : Lowered before before :=
  ⟨fun b hb h ↦ ⟨b, hb, h⟩, fun a ha h ↦ ⟨a, ha, h⟩⟩

/-- A pass over a studly name leaves nothing for a second one. -/
theorem recase_recase (l : List Char) {before before' : Option Char}
    (hb : Lowered before before') (hl : StudlyShaped before l) :
    recase before' (recase before l) = recase before l := by
  induction l generalizing before before' with
  | nil => simp [recase]
  | cons c rest ih =>
    obtain ⟨hc, hletter, hrest⟩ := hl
    -- One step of the second pass, given the character the first pass has left.
    have hstep (x : Char) (hx : x.isAlphanum)
        (h : (if staysWith before' x (recase (some c) rest) then x.toLower else x.toUpper) = x)
        (hcx : Lowered (some c) (some x)) :
        recase before' (x :: recase (some c) rest) = x :: recase (some c) rest := by
      simp only [recase, hx, Bool.not_true, Bool.false_eq_true, if_false, h]
      rw [ih hcx hrest]
    have hfirst : recase before (c :: rest) =
        (if staysWith before c rest then c.toLower else c.toUpper) :: recase (some c) rest := by
      simp [recase, hc]
    rw [hfirst]
    have hclass : c.isUpper ∨ c.isLower ∨ c.isDigit := by
      simpa [Char.isAlphanum, Char.isAlpha, or_assoc] using hc
    rcases hclass with hu | hlow | hd
    · by_cases hstay : staysWith before c rest
      · -- A capital after a capital is lowered, and stays small after a letter.
        obtain ⟨⟨a, ha, hau⟩, -⟩ := (staysWith_of_isUpper rest hu).1 hstay
        obtain ⟨b, hb', hba⟩ := hb.alpha a ha (isAlpha_of_isUpper hau)
        have hsmall : c.toLower.isLower := by simp [Char.isAlpha, hu]
        rw [if_pos hstay]
        refine hstep _ (isAlphanum_of_isAlpha (isAlpha_of_isLower hsmall)) ?_ ⟨?_, ?_⟩
        · rw [if_pos ((staysWith_of_isLower _ hsmall).2 ⟨b, hb', hba⟩)]
          simp
        · simp
        · rintro _ ⟨⟩ -
          exact ⟨_, rfl, by simp [Char.isAlpha, hu]⟩
      · -- A capital that stays one does so in the second pass for the same reason.
        rw [if_neg hstay, Char.toUpper_eq_of_not_isLower (Char.not_isLower_of_isUpper hu)]
        refine hstep c hc ?_ (Lowered.refl _)
        rw [if_neg, Char.toUpper_eq_of_not_isLower (Char.not_isLower_of_isUpper hu)]
        rw [staysWith_of_isUpper _ hu]
        rintro ⟨⟨b, hb', hbu⟩, hstart⟩
        have hlowers : startsLower rest := by
          by_contra hno
          rw [Bool.not_eq_true] at hno
          exact hstay ((staysWith_of_isUpper rest hu).2 ⟨hb.upper b hb' hbu, hno⟩)
        cases rest with
        | nil => simp [startsLower] at hlowers
        | cons d more =>
          have hdl : d.isLower := hlowers
          have hdstay : staysWith (some c) d more :=
            (staysWith_of_isLower more hdl).2 ⟨c, rfl, isAlpha_of_isUpper hu⟩
          have hda : d.isAlpha := isAlpha_of_isLower hdl
          simp [recase, hrest.1, hdstay, startsLower, hda] at hstart
    · -- A small letter follows a letter before and after the first pass.
      obtain ⟨a, ha, haa⟩ := hletter hlow
      obtain ⟨b, hb', hba⟩ := hb.alpha a ha haa
      have hsame : c.toLower = c :=
        Char.toLower_eq_of_not_isUpper (Char.not_isUpper_of_isLower hlow)
      rw [if_pos ((staysWith_of_isLower rest hlow).2 ⟨a, ha, haa⟩), hsame]
      refine hstep c hc ?_ (Lowered.refl _)
      rw [if_pos ((staysWith_of_isLower _ hlow).2 ⟨b, hb', hba⟩), hsame]
    · simp only [toLower_of_isDigit hd, toUpper_of_isDigit hd, ite_self]
      exact hstep c hc (by simp [toLower_of_isDigit hd, toUpper_of_isDigit hd]) (Lowered.refl _)

/-- Studly case is stable from its second application on. -/
theorem studly_studly_studly (name : String) :
    studly (studly (studly name)) = studly (studly name) := by
  apply String.toList_injective
  rw [toList_studly, toList_studly, toList_studly]
  exact recase_recase _ (Lowered.refl none) (studlyShaped_recase _ (by simp))

/-- Studly case is not stable at its first application. -/
example : studly "a_b_c" = "ABC" ∧ studly "ABC" = "Abc" := by decide

end Scaffold.Name
