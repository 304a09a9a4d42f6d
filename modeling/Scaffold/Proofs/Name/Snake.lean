import Mathlib
import Scaffold.Proofs.Name.Letters
import Scaffold.Proofs.Name.Studly

/-!
# Snake case of studly names

Snake case is one pass as well (`chunked`): all letters become small, and an underscore stands
before the first of a chunk. If studly case leaves a name as it is, its capitals are exactly the
letters with which chunks begin, so that studly case undoes snake case (`studly_snake`).
-/

namespace Scaffold.Name

/-- Does a chunk end with the character before `c`? -/
def breaksAt (before : Option Char) (c : Char) (rest : List Char) : Bool :=
  match before with
  | none => false
  | some a => !sameChunk a (c :: rest)

/-- Snake case of letters and digits in one pass; `before` is the character before. -/
def chunked : Option Char → List Char → List Char
  | _, [] => []
  | before, c :: rest =>
    (if breaksAt before c rest then ['_', c.toLower] else [c.toLower]) ++ chunked (some c) rest

/-- Runs in small letters with an underscore between them. -/
def joined (rs : List (List Char)) : List Char :=
  ['_'].intercalate (rs.map fun run ↦ run.map Char.toLower)

theorem joined_attach (c : Char) (rs : List (List Char)) :
    joined (Text.attach c rs) = c.toLower :: joined rs := by
  cases rs with
  | nil => rfl
  | cons run rest =>
    cases rest with
    | nil => simp [joined, Text.attach]
    | cons next more => simp [joined, Text.attach, List.intercalate_cons_cons]

theorem joined_cons_cons (c : Char) (run : List Char) (rs : List (List Char)) :
    joined ([c] :: run :: rs) = c.toLower :: '_' :: joined (run :: rs) := by
  simp [joined, List.intercalate_cons_cons]

/-- The pass puts an underscore before what starts a chunk after another character. -/
theorem chunked_some (a c : Char) (rest : List Char) :
    chunked (some a) (c :: rest) =
      if sameChunk a (c :: rest) then chunked none (c :: rest)
      else '_' :: chunked none (c :: rest) := by
  unfold chunked breaksAt
  cases h : sameChunk a (c :: rest) <;> simp [h]

/-- On letters and digits the pass joins the chunks. -/
theorem chunked_eq_joined {l : List Char} (h : ∀ c ∈ l, c.isAlphanum = true) :
    chunked none l = joined (runs sameChunk l) := by
  induction l with
  | nil => rfl
  | cons c rest ih =>
    rw [List.forall_mem_cons] at h
    have hrest := ih h.2
    have hfirst : chunked none (c :: rest) = c.toLower :: chunked (some c) rest := rfl
    rw [hfirst]
    cases rest with
    | nil => rw [runs_cons_of_not_joins h.1 rfl]; rfl
    | cons d more =>
      rw [chunked_some, hrest]
      cases hsame : sameChunk c (d :: more) with
      | true => rw [if_pos rfl, runs_cons_of_joins h.1 hsame, joined_attach]
      | false =>
        obtain ⟨run, rs, hruns⟩ := exists_runs_cons sameChunk more (h.2 d List.mem_cons_self)
        rw [if_neg Bool.false_ne_true, runs_cons_of_not_joins h.1 hsame, hruns, joined_cons_cons]

/-- Snake case joins the chunks of a name. -/
theorem toList_snake_eq_joined (name : String) :
    (snake name).toList = joined (runs sameChunk name.toList) := by
  simp [snake, joined, String.toList_intercalate, Function.comp_def]

theorem toList_snake {name : String} (h : ∀ c ∈ name.toList, c.isAlphanum = true) :
    (snake name).toList = chunked none name.toList := by
  rw [chunked_eq_joined h, toList_snake_eq_joined]

/-- Only a capital starts a chunk after another character. -/
theorem isUpper_of_breaksAt {before : Option Char} {c : Char} {rest : List Char}
    (hc : c.isAlphanum = true) (h : breaksAt before c rest = true) : c.isUpper = true := by
  cases before with
  | none => cases h
  | some a =>
    by_contra hno
    rw [Bool.not_eq_true] at hno
    simp [breaksAt, sameChunk, hc, hno] at h

/-- A capital starts a chunk, unless it follows another one without a small letter after it. -/
theorem breaksAt_of_isUpper {a c : Char} {rest : List Char} (hc : c.isUpper = true)
    (h : a.isUpper → startsLower rest = true) : breaksAt (some a) c rest = true := by
  unfold breaksAt sameChunk
  cases ha : a.isUpper with
  | true => simp [hc, h ha]
  | false => simp [hc, ha]

/-! ## Parts of a name -/

/-- Small letters and digits, which no pass changes behind a letter. -/
def isSmall (c : Char) : Bool := c.isLower || c.isDigit

theorem isUpper_eq_false_of_isSmall {c : Char} (h : isSmall c = true) : c.isUpper = false := by
  rw [isSmall, Bool.or_eq_true] at h
  cases h with
  | inl hlow => exact Bool.eq_false_iff.2 (Char.not_isUpper_of_isLower hlow)
  | inr hdigit => exact not_isUpper_of_isDigit hdigit

theorem toLower_of_isSmall {c : Char} (h : isSmall c = true) : c.toLower = c := by
  apply Char.toLower_eq_of_not_isUpper
  rw [isUpper_eq_false_of_isSmall h]
  exact Bool.false_ne_true

theorem isAlphanum_of_isSmall {c : Char} (h : isSmall c = true) : c.isAlphanum = true := by
  rw [isSmall, Bool.or_eq_true] at h
  cases h with
  | inl hlow => exact isAlphanum_of_isAlpha (isAlpha_of_isLower hlow)
  | inr hdigit => exact isAlphanum_of_isDigit hdigit

theorem isSmall_toLower {c : Char} (h : c.isAlphanum = true) : isSmall c.toLower = true := by
  have halnum : c.toLower.isAlphanum = true := by rw [isAlphanum_toLower, h]
  rcases isUpper_or_isLower_or_isDigit halnum with hup | hlow | hdigit
  · simp at hup
  · rw [isSmall, hlow, Bool.true_or]
  · rw [isSmall, hdigit, Bool.or_true]

theorem map_toLower_of_isSmall {l : List Char} (h : ∀ c ∈ l, isSmall c = true) :
    l.map Char.toLower = l := by
  calc
    l.map Char.toLower = l.map id := List.map_congr_left fun c hc ↦ toLower_of_isSmall (h c hc)
    _ = l := List.map_id l

/-- Where a capital or nothing follows, chunks end as they do at the end of a name. -/
theorem chunked_append {l m : List Char} (hm : startsLower m = false) (before : Option Char) :
    chunked before (l ++ m) = chunked before l ++ chunked (l.getLast?.or before) m := by
  induction l generalizing before with
  | nil => rfl
  | cons c rest ih =>
    have hahead : startsLower (rest ++ m) = startsLower rest := by
      cases rest with
      | nil => exact hm
      | cons d more => rfl
    have hbreaks : breaksAt before c (rest ++ m) = breaksAt before c rest := by
      unfold breaksAt sameChunk
      simp only [hahead]
    have hlast : (c :: rest).getLast?.or before = rest.getLast?.or (some c) := by
      rw [List.getLast?_cons, Option.some_or]
      cases rest.getLast? <;> rfl
    rw [hlast, List.cons_append, chunked, chunked, ih, hbreaks, List.append_assoc]

/-- Small letters and digits stay in one chunk. -/
theorem chunked_of_isSmall {l : List Char} (h : ∀ c ∈ l, isSmall c = true)
    (before : Option Char) : chunked before l = l := by
  induction l generalizing before with
  | nil => rfl
  | cons c rest ih =>
    rw [List.forall_mem_cons] at h
    have hno : breaksAt before c rest = false := by
      by_contra hbreak
      rw [Bool.not_eq_false] at hbreak
      have hup := isUpper_of_breaksAt (isAlphanum_of_isSmall h.1) hbreak
      rw [isUpper_eq_false_of_isSmall h.1] at hup
      cases hup
    rw [chunked, hno, ih h.2, toLower_of_isSmall h.1]
    rfl

/-- A capital before small letters starts a chunk behind anything but another capital, and behind
that if a letter follows it. -/
theorem chunked_capital {c : Char} {small : List Char} (hc : c.isUpper = true)
    (hsmall : ∀ x ∈ small, isSmall x = true) {before : Option Char}
    (hbefore : ∀ a ∈ before, a.isUpper → startsLower small = true) :
    chunked before (c :: small) = (if before.isSome then ['_'] else []) ++ c.toLower :: small := by
  rw [chunked, chunked_of_isSmall hsmall]
  cases before with
  | none => rfl
  | some a =>
    rw [breaksAt_of_isUpper hc (hbefore a rfl)]
    rfl

/-- Small letters at the end of a name stay together, whatever stands before them, and the letters
before them stay as well. -/
theorem exists_chunked_append {l m : List Char} (hl : ∀ c ∈ l, c.isAlphanum = true)
    (hm : ∀ c ∈ m, isSmall c = true) (before : Option Char) :
    ∃ start, chunked before (l ++ m) = start ++ m ∧ smallLetters start = smallLetters l ∧
      ∀ c ∈ start, isSmall c = true ∨ c = '_' := by
  induction l generalizing before with
  | nil => exact ⟨[], chunked_of_isSmall hm before, rfl, List.forall_mem_nil _⟩
  | cons c rest ih =>
    rw [List.forall_mem_cons] at hl
    obtain ⟨start, heq, hletters, hchars⟩ := ih hl.2 (some c)
    have hc := isSmall_toLower hl.1
    refine ⟨(if breaksAt before c (rest ++ m) then ['_', c.toLower] else [c.toLower]) ++ start,
      ?_, ?_, ?_⟩
    · rw [List.cons_append, chunked, heq, List.append_assoc]
    · have hscore : Char.isAlphanum '_' = false := by decide
      have hfirst : smallLetters (if breaksAt before c (rest ++ m) then ['_', c.toLower]
          else [c.toLower]) = smallLetters [c] := by
        split <;> simp [smallLetters, List.filter, hl.1, hscore]
      rw [smallLetters_append, hfirst, hletters, ← smallLetters_append]
      rfl
    · intro x hx
      rw [List.mem_append] at hx
      cases hx with
      | inl hx =>
        split at hx
        · simp only [List.mem_cons, List.not_mem_nil, or_false] at hx
          cases hx with
          | inl hscore => exact .inr hscore
          | inr hsame => exact .inl (hsame ▸ hc)
        · rw [List.mem_singleton.1 hx]
          exact .inl hc
      | inr hx => exact hchars x hx

/-! ## Names that studly case leaves as they are -/

/-- Letters and digits that studly case leaves as they are; `before` is the character before. Small
letters stand only after letters, and of two capitals the second one is followed by a small
letter. -/
def Settled : Option Char → List Char → Prop
  | _, [] => True
  | before, c :: rest =>
    c.isAlphanum = true ∧ (c.isLower → ∃ a ∈ before, a.isAlpha) ∧
      (c.isUpper → (∃ a ∈ before, a.isUpper) → startsLower rest = true) ∧ Settled (some c) rest

theorem settled_of_recase_eq {before : Option Char} {l : List Char}
    (halnum : ∀ c ∈ l, c.isAlphanum = true) (h : recase before l = l) : Settled before l := by
  induction l generalizing before with
  | nil => trivial
  | cons c rest ih =>
    rw [List.forall_mem_cons] at halnum
    simp only [recase, halnum.1, Bool.not_true, Bool.false_eq_true, if_false, List.cons.injEq] at h
    obtain ⟨hfirst, hrest⟩ := h
    refine ⟨halnum.1, ?_, ?_, ih halnum.2 hrest⟩
    · intro hlow
      by_contra hno
      rw [if_neg (mt (staysWith_of_isLower rest hlow).1 hno)] at hfirst
      have hupper : c.toUpper.isLower = true := by rw [hfirst, hlow]
      simp at hupper
    · intro hup hbefore
      by_contra hno
      rw [Bool.not_eq_true] at hno
      rw [if_pos ((staysWith_of_isUpper rest hup).2 ⟨hbefore, hno⟩)] at hfirst
      have hlower : c.toLower.isUpper = true := by rw [hfirst, hup]
      simp at hlower

theorem settled_of_studly_eq {name : String} (h : studly name = name) :
    Settled none name.toList := by
  apply settled_of_recase_eq
  · rw [← h]
    exact isAlphanum_of_mem_studly
  · rw [← toList_studly, h]

theorem Settled.isAlphanum {before : Option Char} {l : List Char} (h : Settled before l) :
    ∀ c ∈ l, c.isAlphanum = true := by
  induction l generalizing before with
  | nil => exact List.forall_mem_nil _
  | cons c rest ih => exact List.forall_mem_cons.2 ⟨h.1, ih h.2.2.2⟩

/-- What stands behind a part of a settled name is settled after the last character of it. -/
theorem Settled.right {before : Option Char} {l m : List Char} (h : Settled before (l ++ m)) :
    Settled (l.getLast?.or before) m := by
  induction l generalizing before with
  | nil => exact h
  | cons c rest ih =>
    have hrest := ih h.2.2.2
    rw [List.getLast?_cons, Option.some_or]
    cases hlast : rest.getLast? with
    | none => simpa [hlast] using hrest
    | some a => simpa [hlast] using hrest

/-- Studly case undoes the pass on a settled name. -/
theorem recase_chunked {before : Option Char} {l : List Char} (h : Settled before l) :
    recase (before.map Char.toLower) (chunked before l) = l := by
  induction l generalizing before with
  | nil => rfl
  | cons c rest ih =>
    obtain ⟨hc, hlow, hup, hrest⟩ := h
    have hsmall : c.toLower.isAlphanum = true := by rw [isAlphanum_toLower, hc]
    -- One letter of the second pass, and the rest of it.
    have hstep (before' : Option Char) (x : List Char)
        (hx : (if staysWith before' c.toLower (chunked (some c) rest) then c.toLower.toLower
          else c.toLower.toUpper) = c) :
        recase before' (c.toLower :: chunked (some c) rest) = c :: rest := by
      rw [recase, hsmall]
      simp only [Bool.not_true, Bool.false_eq_true, if_false, hx]
      exact congrArg (c :: ·) (ih hrest)
    rw [chunked]
    cases hbreak : breaksAt before c rest with
    | true =>
      have hcap := isUpper_of_breaksAt hc hbreak
      have hscore : recase (before.map Char.toLower) ('_' :: c.toLower :: chunked (some c) rest) =
          recase none (c.toLower :: chunked (some c) rest) := rfl
      simp only [if_true, List.cons_append, List.nil_append]
      rw [hscore]
      apply hstep none rest
      have hsame : c.toLower.toUpper = c := by
        rw [Char.toUpper_toLower_eq_toUpper]
        exact Char.toUpper_eq_of_not_isLower (Char.not_isLower_of_isUpper hcap)
      simpa [staysWith] using hsame
    | false =>
      simp only [Bool.false_eq_true, if_false, List.cons_append, List.nil_append]
      apply hstep _ rest
      rcases isUpper_or_isLower_or_isDigit hc with hcap | hsmall | hdigit
      · -- A capital that starts no chunk is the first character.
        cases before with
        | none => simpa [staysWith] using
            Char.toUpper_eq_of_not_isLower (Char.not_isLower_of_isUpper hcap)
        | some a =>
          have hall := breaksAt_of_isUpper hcap fun ha ↦ hup hcap ⟨a, rfl, ha⟩
          rw [hall] at hbreak
          cases hbreak
      · have hsame : c.toLower = c :=
          Char.toLower_eq_of_not_isUpper (Char.not_isUpper_of_isLower hsmall)
        obtain ⟨a, ha, hletter⟩ := hlow hsmall
        rw [hsame, if_pos, hsame]
        rw [staysWith_of_isLower _ hsmall]
        exact ⟨a.toLower, Option.mem_map_of_mem _ ha, by simpa using hletter⟩
      · rw [toLower_of_isDigit hdigit, toLower_of_isDigit hdigit, toUpper_of_isDigit hdigit, ite_self]

/-- Studly case undoes snake case on every name that it leaves as it is. -/
theorem studly_snake {name : String} (h : studly name = name) : studly (snake name) = name := by
  have hsettled := settled_of_studly_eq h
  apply String.toList_injective
  rw [toList_studly, toList_snake hsettled.isAlphanum]
  exact recase_chunked hsettled

end Scaffold.Name
