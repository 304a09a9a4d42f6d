import Mathlib
import Scaffold.Proofs.Name.Snake
import Scaffold.Proofs.Text.Trimming

/-!
# Words and chunks by patterns

The words of a name are what a search for four patterns finds in it, from left to right
(`toList_words_eq_found`), and its snake case is what five replacements of patterns make of it
(`toList_snake_eq_rewritten`). A pattern that starts with capitals takes as many of them as the text
behind them allows, so a search may have to give back the last one; cutting a name into runs decides
this at each character.
-/

namespace Scaffold.Name

open Text

variable {c d : Char} {l rest behind caps : List Char} {ends : List Char → Bool}
  {p : Char → List Char → Bool}

/-! ## Capitals up to a place -/

/-- Does a capital with a small letter behind it start the text? -/
def startsCapitalized : List Char → Bool
  | [] => false
  | c :: rest => c.isUpper && startsLower rest

/-- The longest start of at most `n` characters behind which `ends` holds. -/
def longestTo (ends : List Char → Bool) : ℕ → List Char → List Char
  | 0, _ => []
  | n + 1, l => if ends (l.drop (n + 1)) then l.take (n + 1) else longestTo ends n l

/-- The longest start of capitals behind which `ends` holds. -/
def capitalsTo (ends : List Char → Bool) (l : List Char) : List Char :=
  longestTo ends (l.takeWhile Char.isUpper).length l

theorem startsLower_append (hcaps : ∀ c ∈ caps, c.isUpper = true)
    (hbehind : startsLower behind = false) : startsLower (caps ++ behind) = false := by
  cases caps with
  | nil => exact hbehind
  | cons c more =>
    have hc := hcaps c List.mem_cons_self
    simpa [startsLower] using Char.not_isLower_of_isUpper hc

theorem exists_of_startsCapitalized (h : startsCapitalized l = true) :
    ∃ u v more, l = u :: v :: more ∧ u.isUpper = true ∧ v.isLower = true := by
  match l with
  | [] => cases h
  | [u] => simp [startsCapitalized, startsLower] at h
  | u :: v :: more =>
    rw [startsCapitalized, Bool.and_eq_true] at h
    exact ⟨u, v, more, rfl, h⟩

theorem exists_longestTo_eq {n : ℕ} (h : longestTo ends n l ≠ []) :
    ∃ k ≤ n, longestTo ends n l = l.take k ∧ ends (l.drop k) = true := by
  induction n with
  | zero => exact absurd rfl h
  | succ n ih =>
    rw [longestTo] at h ⊢
    split
    · next hends => exact ⟨n + 1, le_rfl, rfl, hends⟩
    · next hends =>
      rw [if_neg hends] at h
      obtain ⟨k, hk, heq⟩ := ih h
      exact ⟨k, Nat.le_succ_of_le hk, heq⟩

theorem exists_capitalsTo_append (h : capitalsTo ends l ≠ []) :
    ∃ behind, l = capitalsTo ends l ++ behind ∧ ends behind = true ∧
      ∀ c ∈ capitalsTo ends l, c.isUpper = true := by
  obtain ⟨k, hk, heq, hends⟩ := exists_longestTo_eq h
  refine ⟨l.drop k, ?_, hends, fun c hc ↦ ?_⟩
  · rw [capitalsTo, heq, List.take_append_drop]
  · have hmem : c ∈ l.takeWhile Char.isUpper := by
      rw [capitalsTo, heq, ← List.takeWhile_append_dropWhile (p := Char.isUpper) (l := l),
        List.take_append_of_le_length hk] at hc
      exact List.mem_of_mem_take hc
    exact List.mem_takeWhile_imp hmem

theorem longestTo_ne_nil {n k : ℕ} (hl : l ≠ []) (hk : 0 < k) (hkn : k ≤ n)
    (hends : ends (l.drop k) = true) : longestTo ends n l ≠ [] := by
  induction n with
  | zero => omega
  | succ n ih =>
    rw [longestTo]
    split
    · simpa using hl
    · next hno =>
      refine ih (Nat.le_of_lt_succ (lt_of_le_of_ne hkn ?_))
      rintro rfl
      exact hno hends

theorem capitalsTo_ne_nil (hne : caps ≠ []) (hcaps : ∀ c ∈ caps, c.isUpper = true)
    (hends : ends behind = true) : capitalsTo ends (caps ++ behind) ≠ [] := by
  have hlength : caps.length ≤ ((caps ++ behind).takeWhile Char.isUpper).length := by
    rw [List.takeWhile_append_of_pos hcaps, List.length_append]
    exact Nat.le_add_right _ _
  refine longestTo_ne_nil (by simp [hne]) (List.length_pos_iff.2 hne) hlength ?_
  rwa [List.drop_left]

/-! ## Words by patterns -/

/-- May a word of capitals end before this text? -/
def endsCapitals : List Char → Bool
  | [] => true
  | c :: rest => startsCapitalized (c :: rest) || c.isDigit || !c.isAlphanum

/-- Small letters with at most one capital before them. -/
def smallWord : List Char → List Char
  | [] => []
  | c :: rest =>
    if c.isUpper then if startsLower rest then c :: rest.takeWhile Char.isLower else []
    else (c :: rest).takeWhile Char.isLower

/-- The word at the start of a text. Of four patterns the first one that matches decides: small
letters with at most one capital before them, capitals up to where they may end, one capital,
digits. -/
def wordAt (l : List Char) : List Char :=
  ([smallWord l, capitalsTo endsCapitals l, (l.take 1).filter Char.isUpper,
    l.takeWhile Char.isDigit].find? (!·.isEmpty)).getD []

/-- The words found from left to right, each behind the one before; where none starts, the search
goes on with the next character. -/
def wordsFound : List Char → List (List Char)
  | [] => []
  | c :: rest =>
    match wordAt (c :: rest) with
    | [] => wordsFound rest
    | a :: word => (a :: word) :: wordsFound (rest.drop word.length)
termination_by l => l.length

theorem sameWord_of_isLower (hc : c.isLower = true) : sameWord c l = startsLower l := by
  have hup : c.isUpper = false := by simpa using Char.not_isUpper_of_isLower hc
  have hdigit : c.isDigit = false := not_isDigit_of_isAlpha (isAlpha_of_isLower hc)
  cases l <;> simp [sameWord, startsLower, hc, hup, hdigit]

theorem sameWord_of_isDigit (hc : c.isDigit = true) : sameWord c (d :: rest) = d.isDigit := by
  simp [sameWord, hc, not_isUpper_of_isDigit hc, not_isLower_of_isDigit hc]

theorem sameWord_of_isUpper (hc : c.isUpper = true) :
    sameWord c (d :: rest) = (d.isLower || d.isUpper && !startsLower rest) := by
  have hdigit : c.isDigit = false := not_isDigit_of_isAlpha (isAlpha_of_isUpper hc)
  simp [sameWord, hc, hdigit]

/-! ### Each pattern matches a word -/

theorem isRun_lower (hc : c.isLower = true) :
    IsRun sameWord ((c :: rest).dropWhile Char.isLower) ((c :: rest).takeWhile Char.isLower) :=
  isRun_takeWhile hc (fun _ ha ↦ isAlphanum_of_isAlpha (isAlpha_of_isLower ha)) (fun _ ↦ rfl)
    fun _ _ _ ha ↦ sameWord_of_isLower ha

theorem isRun_digits (hc : c.isDigit = true) :
    IsRun sameWord ((c :: rest).dropWhile Char.isDigit) ((c :: rest).takeWhile Char.isDigit) :=
  isRun_takeWhile hc (fun _ ↦ isAlphanum_of_isDigit) (fun _ ↦ rfl)
    fun _ _ _ ha ↦ sameWord_of_isDigit ha

/-- A capital goes with the small letters behind it. -/
theorem isRun_capital_lower (hc : c.isUpper = true) (hd : d.isLower = true) :
    IsRun sameWord ((d :: rest).dropWhile Char.isLower)
      (c :: (d :: rest).takeWhile Char.isLower) := by
  have hsmall : IsRun sameWord ((d :: rest).dropWhile Char.isLower)
      ((d :: rest).takeWhile Char.isLower) := isRun_lower hd
  rw [List.takeWhile_cons_of_pos hd] at hsmall ⊢
  refine ⟨isAlphanum_of_isAlpha (isAlpha_of_isUpper hc), ?_, hsmall⟩
  rw [List.cons_append, sameWord_of_isUpper hc, hd, Bool.true_or]

theorem startsLower_of_endsCapitals (h : endsCapitals l = true) : startsLower l = false := by
  cases l with
  | nil => rfl
  | cons c rest =>
    rw [startsLower]
    by_contra hlow
    rw [Bool.not_eq_false] at hlow
    have hup : c.isUpper = false := by simpa using Char.not_isUpper_of_isLower hlow
    have halpha : c.isAlpha = true := isAlpha_of_isLower hlow
    have hdigit := not_isDigit_of_isAlpha halpha
    simp [endsCapitals, startsCapitalized, hup, hdigit, Char.isAlphanum, halpha] at h

theorem sameWord_eq_false_of_endsCapitals (hc : c.isUpper = true) (h : endsCapitals l = true) :
    sameWord c l = false := by
  have hlow := startsLower_of_endsCapitals h
  cases l with
  | nil => rfl
  | cons d rest =>
    rw [startsLower] at hlow
    rw [sameWord_of_isUpper hc, hlow, Bool.false_or]
    by_contra hno
    simp only [Bool.not_eq_false, Bool.and_eq_true, Bool.not_eq_true'] at hno
    have halpha : d.isAlpha = true := isAlpha_of_isUpper hno.1
    have hdigit := not_isDigit_of_isAlpha halpha
    simp [endsCapitals, startsCapitalized, hno.2, hdigit, Char.isAlphanum, halpha] at h

/-- Of several capitals, none but the last one may have a small letter behind it. -/
theorem isRun_capitals (hne : caps ≠ []) (hcaps : ∀ c ∈ caps, c.isUpper = true)
    (hends : endsCapitals behind = true) : IsRun sameWord behind caps := by
  induction caps with
  | nil => exact absurd rfl hne
  | cons c more ih =>
    rw [List.forall_mem_cons] at hcaps
    have hc : c.isAlphanum = true := isAlphanum_of_isAlpha (isAlpha_of_isUpper hcaps.1)
    cases more with
    | nil => exact ⟨hc, sameWord_eq_false_of_endsCapitals hcaps.1 hends⟩
    | cons d more =>
      refine ⟨hc, ?_, ih (List.cons_ne_nil d more) hcaps.2⟩
      have hlow : startsLower (more ++ behind) = false :=
        startsLower_append (fun x hx ↦ hcaps.2 x (List.mem_cons_of_mem d hx))
          (startsLower_of_endsCapitals hends)
      rw [List.cons_append, sameWord_of_isUpper hcaps.1, hcaps.2 d List.mem_cons_self, hlow]
      simp

/-- A capital without a small letter behind it starts capitals that may end where they do. -/
theorem exists_endsCapitals (hc : c.isUpper = true) (hrest : startsLower rest = false) :
    ∃ caps behind, c :: rest = caps ++ behind ∧ caps ≠ [] ∧ (∀ x ∈ caps, x.isUpper = true) ∧
      endsCapitals behind = true := by
  induction rest generalizing c with
  | nil => exact ⟨[c], [], rfl, by simp, by simpa using hc, rfl⟩
  | cons d more ih =>
    rw [startsLower] at hrest
    by_cases hends : endsCapitals (d :: more) = true
    · exact ⟨[c], d :: more, rfl, by simp, by simpa using hc, hends⟩
    · -- What follows is a capital, so the capitals behind it will do.
      simp only [endsCapitals, startsCapitalized, Bool.or_eq_true, Bool.and_eq_true,
        Bool.not_eq_true', not_or, not_and, Bool.not_eq_true, Bool.not_eq_false] at hends
      obtain ⟨⟨hlow, hdigit⟩, halnum⟩ := hends
      have hd : d.isUpper = true := by
        simpa [Char.isAlphanum, Char.isAlpha, hrest, hdigit] using halnum
      obtain ⟨caps, behind, heq, -, hcaps, hends⟩ := ih hd (hlow hd)
      refine ⟨c :: caps, behind, ?_, List.cons_ne_nil c caps, ?_, hends⟩
      · rw [heq, List.cons_append]
      · exact List.forall_mem_cons.2 ⟨hc, hcaps⟩

/-! ### The patterns find the words -/

theorem wordAt_of_not_isAlphanum (hc : c.isAlphanum = false) : wordAt (c :: rest) = [] := by
  obtain ⟨⟨hup, hlow⟩, hdigit⟩ : (c.isUpper = false ∧ c.isLower = false) ∧ c.isDigit = false := by
    simpa [Char.isAlphanum, Char.isAlpha] using hc
  simp [wordAt, smallWord, capitalsTo, longestTo, hup, hlow, hdigit]

theorem wordAt_of_smallWord (h : smallWord l ≠ []) : wordAt l = smallWord l := by
  simp [wordAt, h]

theorem wordAt_of_capitalsTo (hsmall : smallWord l = []) (h : capitalsTo endsCapitals l ≠ []) :
    wordAt l = capitalsTo endsCapitals l := by
  simp [wordAt, hsmall, h]

theorem wordAt_of_isDigit (hc : c.isDigit = true) :
    wordAt (c :: rest) = (c :: rest).takeWhile Char.isDigit := by
  simp [wordAt, smallWord, capitalsTo, longestTo, hc, not_isUpper_of_isDigit hc,
    not_isLower_of_isDigit hc]

/-- The first pattern that matches gives a run. A single capital is never left to the third one. -/
theorem exists_wordAt_append (hc : c.isAlphanum = true) :
    ∃ behind, c :: rest = wordAt (c :: rest) ++ behind ∧
      IsRun sameWord behind (wordAt (c :: rest)) := by
  rcases isUpper_or_isLower_or_isDigit hc with hup | hlow | hdigit
  · cases hrest : startsLower rest with
    | true =>
      cases rest with
      | nil => cases hrest
      | cons d more =>
        have hsmall : smallWord (c :: d :: more) = c :: (d :: more).takeWhile Char.isLower := by
          rw [smallWord, if_pos hup, if_pos hrest]
        rw [wordAt_of_smallWord (hsmall ▸ List.cons_ne_nil c _), hsmall]
        refine ⟨(d :: more).dropWhile Char.isLower, ?_, isRun_capital_lower hup hrest⟩
        rw [List.cons_append, List.takeWhile_append_dropWhile]
    | false =>
      have hsmall : smallWord (c :: rest) = [] := by simp [smallWord, hup, hrest]
      obtain ⟨caps, behind, heq, hne, hcaps, hends⟩ := exists_endsCapitals hup hrest
      have hmatch : capitalsTo endsCapitals (c :: rest) ≠ [] :=
        heq ▸ capitalsTo_ne_nil hne hcaps hends
      rw [wordAt_of_capitalsTo hsmall hmatch]
      obtain ⟨behind, heq, hends, hcaps⟩ := exists_capitalsTo_append hmatch
      exact ⟨behind, heq, isRun_capitals hmatch hcaps hends⟩
  · have hup : c.isUpper = false := by simpa using Char.not_isUpper_of_isLower hlow
    have hsmall : smallWord (c :: rest) = (c :: rest).takeWhile Char.isLower := by
      rw [smallWord, hup]
      rfl
    have hne : smallWord (c :: rest) ≠ [] := by
      rw [hsmall, List.takeWhile_cons_of_pos hlow]
      exact List.cons_ne_nil c _
    rw [wordAt_of_smallWord hne, hsmall]
    exact ⟨_, List.takeWhile_append_dropWhile.symm, isRun_lower hlow⟩
  · rw [wordAt_of_isDigit hdigit]
    exact ⟨_, List.takeWhile_append_dropWhile.symm, isRun_digits hdigit⟩

/-- Cutting a name by its patterns gives its runs. -/
theorem wordsFound_eq_runs (l : List Char) : wordsFound l = runs sameWord l := by
  fun_induction wordsFound l with
  | case1 => rfl
  | case2 c rest hword ih =>
    cases hc : c.isAlphanum with
    | false => rw [runs_cons_of_not_isAlphanum hc, ih]
    | true =>
      obtain ⟨behind, -, hrun⟩ := exists_wordAt_append hc
      rw [hword] at hrun
      cases hrun
  | case3 c rest a word hword ih =>
    have hc : c.isAlphanum = true := by
      by_contra hno
      rw [Bool.not_eq_true] at hno
      rw [wordAt_of_not_isAlphanum hno] at hword
      cases hword
    obtain ⟨behind, heq, hrun⟩ := exists_wordAt_append hc
    rw [hword] at heq hrun
    have hbehind : rest.drop word.length = behind := by
      rw [List.cons_append, List.cons.injEq] at heq
      rw [heq.2, List.drop_left]
    rw [heq, runs_append hrun, ih, hbehind]

/-- The words of a name are found by their patterns. -/
theorem toList_words_eq_found (name : String) :
    (words name).map String.toList =
      (wordsFound name.toList).map fun word ↦ word.map Char.toLower := by
  rw [wordsFound_eq_runs]
  simp [words, Function.comp_def]

/-! ## Snake case by rewriting -/

/-- Puts an underscore between capitals and a capitalized word behind them, from left to right and
behind the place before. -/
def partAcronyms : List Char → List Char
  | [] => []
  | c :: rest =>
    match capitalsTo startsCapitalized (c :: rest) with
    | [] => c :: partAcronyms rest
    | a :: caps => a :: caps ++ '_' :: (rest.drop caps.length).take 2 ++
        partAcronyms (rest.drop (caps.length + 2))
termination_by l => l.length

/-- Puts an underscore between a small letter or a digit and a capital, from left to right and
behind the place before. -/
def partCapitals : List Char → List Char
  | a :: b :: rest =>
    if isSmall a && b.isUpper then a :: '_' :: b :: partCapitals rest
    else a :: partCapitals (b :: rest)
  | l => l

/-- An underscore for what is neither a letter nor a digit. -/
def underscored (c : Char) : Char := if c.isAlphanum then c else '_'

/-- One underscore for several. -/
def squeezed : List Char → List Char
  | [] => []
  | c :: rest => c :: squeezed (if c = '_' then rest.dropWhile (· == '_') else rest)
termination_by l => l.length
decreasing_by
  have := (List.dropWhile_suffix (l := rest) (· == '_')).length_le
  split <;> simp only [List.length_cons] <;> omega

/-! ### The places of underscores -/

/-- The text with an underscore behind each character for which `p` holds of the rest. -/
def partedWhere (p : Char → List Char → Bool) : List Char → List Char
  | [] => []
  | c :: rest => if p c rest then c :: '_' :: partedWhere p rest else c :: partedWhere p rest

def startsUpper : List Char → Bool
  | [] => false
  | c :: _ => c.isUpper

/-- Does a letter or digit start the text? -/
def startsRun : List Char → Bool
  | [] => false
  | c :: _ => c.isAlphanum

/-- Capitals end here before a capitalized word. -/
def isAcronymEnd (c : Char) (rest : List Char) : Bool := c.isUpper && startsCapitalized rest

/-- Small letters or digits end here before a capital. -/
def isSmallEnd (c : Char) (rest : List Char) : Bool := isSmall c && startsUpper rest

/-- A chunk ends here before another one. -/
def isChunkEnd (c : Char) (rest : List Char) : Bool :=
  c.isAlphanum && startsRun rest && !sameChunk c rest

theorem partedWhere_of_neg (h : p c rest = false) :
    partedWhere p (c :: rest) = c :: partedWhere p rest := by
  rw [partedWhere, h]
  rfl

theorem partedWhere_of_pos (h : p c rest = true) :
    partedWhere p (c :: rest) = c :: '_' :: partedWhere p rest := by
  rw [partedWhere, h]
  rfl

theorem startsUpper_partedWhere : startsUpper (partedWhere p l) = startsUpper l := by
  cases l with
  | nil => rfl
  | cons c rest => rw [partedWhere]; split <;> rfl

theorem startsRun_partedWhere : startsRun (partedWhere p l) = startsRun l := by
  cases l with
  | nil => rfl
  | cons c rest => rw [partedWhere]; split <;> rfl

/-- Of several capitals only the last one has a capitalized word behind it. -/
theorem partedWhere_capitals (hne : caps ≠ []) (hcaps : ∀ c ∈ caps, c.isUpper = true)
    (hbehind : startsCapitalized behind = true) :
    partedWhere isAcronymEnd (caps ++ behind) =
      caps ++ '_' :: partedWhere isAcronymEnd behind := by
  induction caps with
  | nil => exact absurd rfl hne
  | cons c more ih =>
    rw [List.forall_mem_cons] at hcaps
    cases more with
    | nil =>
      have hpart : isAcronymEnd c behind = true := by rw [isAcronymEnd, hcaps.1, hbehind]; rfl
      exact partedWhere_of_pos hpart
    | cons d more =>
      have hlow : startsLower (more ++ behind) = false := by
        refine startsLower_append (fun x hx ↦ hcaps.2 x (List.mem_cons_of_mem d hx)) ?_
        obtain ⟨u, v, tail, rfl, hu, -⟩ := exists_of_startsCapitalized hbehind
        simpa [startsLower] using Char.not_isLower_of_isUpper hu
      have hkeep : isAcronymEnd c (d :: more ++ behind) = false := by
        simp [isAcronymEnd, startsCapitalized, hlow]
      rw [List.cons_append, partedWhere_of_neg hkeep, ih (List.cons_ne_nil d more) hcaps.2]
      rfl

theorem partAcronyms_eq (l : List Char) : partAcronyms l = partedWhere isAcronymEnd l := by
  fun_induction partAcronyms l with
  | case1 => rfl
  | case2 c rest hno ih =>
    have hkeep : isAcronymEnd c rest = false := by
      by_contra hpart
      rw [Bool.not_eq_false, isAcronymEnd, Bool.and_eq_true] at hpart
      have hcaps : ∀ x ∈ [c], x.isUpper = true := by simpa using hpart.1
      exact capitalsTo_ne_nil (List.cons_ne_nil c []) hcaps hpart.2 hno
    rw [partedWhere_of_neg hkeep, ih]
  | case3 c rest a caps hmatch ih =>
    obtain ⟨behind, heq, hbehind, hcaps⟩ :=
      exists_capitalsTo_append (hmatch ▸ List.cons_ne_nil a caps)
    rw [hmatch] at heq hcaps
    rw [List.cons_append, List.cons.injEq] at heq
    obtain ⟨rfl, rfl⟩ := heq
    obtain ⟨u, v, more, rfl, hu, hv⟩ := exists_of_startsCapitalized hbehind
    have hno : v.isUpper = false := by simpa using Char.not_isUpper_of_isLower hv
    have hupper : isAcronymEnd u (v :: more) = false := by
      simp [isAcronymEnd, startsCapitalized, hno]
    have hlower : isAcronymEnd v more = false := by simp [isAcronymEnd, hno]
    have hmore : (caps ++ u :: v :: more).drop (caps.length + 2) = more := by simp
    rw [hmore] at ih ⊢
    rw [← List.cons_append, partedWhere_capitals (List.cons_ne_nil c caps) hcaps hbehind,
      partedWhere_of_neg hupper, partedWhere_of_neg hlower, ih]
    simp

theorem partCapitals_eq (l : List Char) : partCapitals l = partedWhere isSmallEnd l := by
  fun_induction partCapitals l with
  | case1 a b rest hpart ih =>
    have hb : isSmallEnd b rest = false := by
      rw [Bool.and_eq_true] at hpart
      have hno : isSmall b = false := by
        by_contra hsmall
        rw [Bool.not_eq_false] at hsmall
        rw [isUpper_eq_false_of_isSmall hsmall] at hpart
        cases hpart.2
      rw [isSmallEnd, hno, Bool.false_and]
    rw [partedWhere_of_pos hpart, partedWhere_of_neg hb, ih]
  | case2 a b rest hpart ih =>
    rw [partedWhere_of_neg (Bool.eq_false_iff.2 hpart), ih]
  | case3 l h =>
    cases l with
    | nil => rfl
    | cons a rest =>
      cases rest with
      | nil => simp [partedWhere, isSmallEnd, startsUpper]
      | cons b rest => exact absurd rfl (h a b rest)

theorem isChunkEnd_eq (c : Char) (rest : List Char) :
    isChunkEnd c rest = (isAcronymEnd c rest || isSmallEnd c rest) := by
  cases rest with
  | nil => simp [isChunkEnd, isAcronymEnd, isSmallEnd, startsRun, startsCapitalized, startsUpper]
  | cons d more =>
    have hkind : c.isAlphanum = (c.isUpper || isSmall c) := by
      simp [Char.isAlphanum, Char.isAlpha, isSmall, Bool.or_assoc]
    have hexclusive : isSmall c = true → c.isUpper = false := isUpper_eq_false_of_isSmall
    cases hd : d.isUpper with
    | false =>
      simp [isChunkEnd, isAcronymEnd, isSmallEnd, startsRun, startsCapitalized, startsUpper,
        sameChunk, hd]
    | true =>
      have hdalnum : d.isAlphanum = true := isAlphanum_of_isAlpha (isAlpha_of_isUpper hd)
      cases hup : c.isUpper <;> cases hsmall : isSmall c <;>
        simp_all [isChunkEnd, isAcronymEnd, isSmallEnd, startsRun, startsCapitalized, startsUpper,
          sameChunk]

/-- The second pass neither sees the underscores of the first one nor adds any beside them. -/
theorem partCapitals_partAcronyms (l : List Char) :
    partCapitals (partAcronyms l) = partedWhere isChunkEnd l := by
  rw [partCapitals_eq, partAcronyms_eq]
  induction l with
  | nil => rfl
  | cons c rest ih =>
    cases hacronym : isAcronymEnd c rest with
    | true =>
      have hend : isChunkEnd c rest = true := by rw [isChunkEnd_eq, hacronym, Bool.true_or]
      have hc : isSmallEnd c ('_' :: partedWhere isAcronymEnd rest) = false := by
        simp [isSmallEnd, startsUpper]
      have hscore : isSmallEnd '_' (partedWhere isAcronymEnd rest) = false := by
        rw [isSmallEnd, show isSmall '_' = false from rfl, Bool.false_and]
      rw [partedWhere_of_pos hacronym, partedWhere_of_pos hend, partedWhere_of_neg hc,
        partedWhere_of_neg hscore, ih]
    | false =>
      have hsame : isSmallEnd c (partedWhere isAcronymEnd rest) = isChunkEnd c rest := by
        rw [isChunkEnd_eq, hacronym, Bool.false_or, isSmallEnd, startsUpper_partedWhere, isSmallEnd]
      rw [partedWhere_of_neg hacronym]
      cases hend : isChunkEnd c rest with
      | true => rw [partedWhere_of_pos (hsame.trans hend), partedWhere_of_pos hend, ih]
      | false => rw [partedWhere_of_neg (hsame.trans hend), partedWhere_of_neg hend, ih]

/-! ### Single underscores -/

/-- Does nothing part the character from the text behind it? -/
def isUnparted (_ : Char) (rest : List Char) : Bool := startsRun rest

/-- The parts between underscores are the chunks. -/
theorem runs_partedWhere (l : List Char) :
    runs isUnparted (partedWhere isChunkEnd l) = runs sameChunk l := by
  induction l with
  | nil => rfl
  | cons c rest ih =>
    cases hc : c.isAlphanum with
    | false =>
      have hend : isChunkEnd c rest = false := by rw [isChunkEnd, hc]; rfl
      rw [partedWhere_of_neg hend, runs_cons_of_not_isAlphanum hc, ih,
        runs_cons_of_not_isAlphanum hc]
    | true =>
      have hchunk : sameChunk c rest = true → startsRun rest = true := by
        cases rest with
        | nil => exact id
        | cons d more => exact fun h ↦ (Bool.and_eq_true_iff.1 h).1
      cases hend : isChunkEnd c rest with
      | true =>
        have hparts : sameChunk c rest = false := by
          simpa using (Bool.and_eq_true_iff.1 hend).2
        rw [partedWhere_of_pos hend, runs_cons_of_not_joins hc rfl, runs_cons_of_not_isAlphanum rfl,
          ih, runs_cons_of_not_joins hc hparts]
      | false =>
        have hsame : isUnparted c (partedWhere isChunkEnd rest) = sameChunk c rest := by
          rw [isUnparted, startsRun_partedWhere]
          cases hjoin : sameChunk c rest with
          | true => exact hchunk hjoin
          | false => simpa [isChunkEnd, hc, hjoin] using hend
        rw [partedWhere_of_neg hend]
        cases hjoin : sameChunk c rest with
        | true => rw [runs_cons_of_joins hc (hsame.trans hjoin), ih, runs_cons_of_joins hc hjoin]
        | false =>
          rw [runs_cons_of_not_joins hc (hsame.trans hjoin), ih, runs_cons_of_not_joins hc hjoin]

theorem squeezed_cons (h : c ≠ '_') (rest : List Char) :
    squeezed (c :: rest) = c :: squeezed rest := by
  rw [squeezed, if_neg h]

theorem squeezed_score_score (rest : List Char) :
    squeezed ('_' :: '_' :: rest) = squeezed ('_' :: rest) := by
  rw [squeezed, squeezed]
  rfl

theorem squeezed_score_cons (h : c ≠ '_') (rest : List Char) :
    squeezed ('_' :: c :: rest) = '_' :: squeezed (c :: rest) := by
  rw [squeezed, if_pos rfl, List.dropWhile_cons_of_neg (by simpa using h)]

theorem intercalate_attach (c : Char) (rs : List (List Char)) :
    ['_'].intercalate (attach c rs) = c :: ['_'].intercalate rs := by
  cases rs with
  | nil => rfl
  | cons run rest => cases rest <;> simp [attach, List.intercalate_cons_cons]

/-- An underscore if the text starts with what is neither a letter nor a digit. -/
def gapAt : List Char → List Char
  | [] => []
  | c :: _ => if c.isAlphanum then [] else ['_']

theorem eq_of_mem_gapAt (h : c ∈ gapAt l) : c = '_' := by
  cases l with
  | nil => cases h
  | cons d rest =>
    rw [gapAt] at h
    split at h
    · cases h
    · exact List.mem_singleton.1 h

/-- Squeezed, a text is its runs with single underscores between them, perhaps with one before them
and with `after` behind them. -/
structure Squeezes (l after : List Char) : Prop where
  scores : ∀ c ∈ after, c = '_'
  none : runs isUnparted l = [] → after = []
  eq : squeezed (l.map underscored) = gapAt l ++ ['_'].intercalate (runs isUnparted l) ++ after

theorem underscored_of_isAlphanum (hc : c.isAlphanum = true) : underscored c = c ∧ c ≠ '_' := by
  refine ⟨by rw [underscored, hc]; rfl, ?_⟩
  rintro rfl
  cases hc

theorem underscored_of_not_isAlphanum (hc : c.isAlphanum = false) : underscored c = '_' := by
  rw [underscored, hc]
  rfl

theorem Squeezes.gap {after : List Char} (h : Squeezes rest after) (hc : c.isAlphanum = false) :
    Squeezes (c :: rest) after := by
  refine ⟨h.scores, by rw [runs_cons_of_not_isAlphanum hc]; exact h.none, ?_⟩
  have heq := h.eq
  rw [List.map_cons, underscored_of_not_isAlphanum hc, runs_cons_of_not_isAlphanum hc]
  cases rest with
  | nil =>
    have hnone : after = [] := h.none rfl
    simp [hnone, squeezed, gapAt, hc, runs]
  | cons d more =>
    cases hd : d.isAlphanum with
    | false =>
      rw [List.map_cons, underscored_of_not_isAlphanum hd] at heq ⊢
      rw [squeezed_score_score, heq]
      simp [gapAt, hc, hd]
    | true =>
      obtain ⟨hkept, hne⟩ := underscored_of_isAlphanum hd
      rw [List.map_cons, hkept] at heq ⊢
      rw [squeezed_score_cons hne, heq]
      simp [gapAt, hc, hd]

theorem Squeezes.letter {after : List Char} (h : Squeezes rest after) (hc : c.isAlphanum = true) :
    ∃ after, Squeezes (c :: rest) after := by
  obtain ⟨hkept, hne⟩ := underscored_of_isAlphanum hc
  have hgap : gapAt (c :: rest) = [] := by rw [gapAt, hc]; rfl
  have hsqueezed : squeezed ((c :: rest).map underscored) =
      c :: (gapAt rest ++ ['_'].intercalate (runs isUnparted rest) ++ after) := by
    rw [List.map_cons, hkept, squeezed_cons hne, h.eq]
  cases hjoin : isUnparted c rest with
  | true =>
    have hnext : gapAt rest = [] := by
      cases rest with
      | nil => rfl
      | cons d more => rw [gapAt, show d.isAlphanum = true from hjoin]; rfl
    refine ⟨after, h.scores, fun hnone ↦ absurd hnone ?_, ?_⟩
    · obtain ⟨run, rs, hruns⟩ := exists_runs_cons isUnparted rest hc
      rw [hruns]
      exact List.cons_ne_nil _ rs
    · rw [hsqueezed, hgap, runs_cons_of_joins hc hjoin, intercalate_attach, hnext]
      rfl
  | false =>
    have hruns := runs_cons_of_not_joins hc hjoin
    cases hrest : runs isUnparted rest with
    | nil =>
      -- The last run: what was in front of nothing stands behind it now.
      refine ⟨gapAt rest, fun _ ↦ eq_of_mem_gapAt, by simp [hruns], ?_⟩
      rw [hsqueezed, hgap, hruns, hrest, h.none hrest]
      simp
    | cons run more =>
      have hnext : gapAt rest = ['_'] := by
        cases rest with
        | nil => simp [runs] at hrest
        | cons d more => rw [gapAt, show d.isAlphanum = false from hjoin]; rfl
      refine ⟨after, h.scores, by simp [hruns], ?_⟩
      rw [hsqueezed, hgap, hruns, hrest, hnext, List.intercalate_cons_cons]
      simp

theorem exists_squeezes (l : List Char) : ∃ after, Squeezes l after := by
  induction l with
  | nil => exact ⟨[], by simp, fun _ ↦ rfl, by simp [squeezed, gapAt, runs]⟩
  | cons c rest ih =>
    obtain ⟨after, h⟩ := ih
    cases hc : c.isAlphanum with
    | false => exact ⟨after, h.gap hc⟩
    | true => exact h.letter hc

theorem trim_intercalate_runs (joins : Char → List Char → Bool) (l : List Char) :
    trim (· == '_') (['_'].intercalate (runs joins l)) = ['_'].intercalate (runs joins l) := by
  refine trim_intercalate (.inr fun hnil ↦ ne_nil_of_mem_runs hnil rfl) fun run hrun ↦ ?_
  refine trim_of_forall fun c hc ↦ beq_eq_false_iff_ne.2 ?_
  rintro rfl
  cases isAlphanum_of_mem_runs hrun hc

theorem map_toLower_intercalate (rs : List (List Char)) :
    (['_'].intercalate rs).map Char.toLower = joined rs := by
  induction rs with
  | nil => rfl
  | cons run rest ih =>
    cases rest with
    | nil => simp [joined]
    | cons next more =>
      rw [List.intercalate_cons_cons, List.map_append, List.map_append, ih]
      simp [joined, List.intercalate_cons_cons]

/-- Snake case is the result of five replacements and of making the letters small. -/
theorem toList_snake_eq_rewritten (name : String) :
    (snake name).toList = (trim (· == '_') (squeezed
      ((partCapitals (partAcronyms name.toList)).map underscored))).map Char.toLower := by
  obtain ⟨after, hafter, -, heq⟩ := exists_squeezes (partedWhere isChunkEnd name.toList)
  have hbefore : ∀ c ∈ gapAt (partedWhere isChunkEnd name.toList), (c == '_') = true :=
    fun c hc ↦ beq_iff_eq.2 (eq_of_mem_gapAt hc)
  have htrim := trim_append hbefore (fun c hc ↦ beq_iff_eq.2 (hafter c hc))
    (trim_intercalate_runs isUnparted (partedWhere isChunkEnd name.toList))
  rw [partCapitals_partAcronyms, heq, htrim, runs_partedWhere, map_toLower_intercalate,
    toList_snake_eq_joined]

end Scaffold.Name
