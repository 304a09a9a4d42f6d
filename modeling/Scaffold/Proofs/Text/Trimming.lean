import Mathlib
import Scaffold.Text.Blank

/-!
# Trimmed texts

What trimming takes away, and when it takes nothing away: a text stays as it is exactly if neither
its first nor its last character is of the class that is trimmed (`trim_eq_self_iff`).
-/

namespace Scaffold.Text

variable {p : Char → Bool} {l : List Char}

/-- Characters of the class are taken up to the first one that is not. -/
theorem takeWhile_dropWhile_append {m : List Char} (hl : ∀ c ∈ l, p c = true)
    (hm : ∀ c ∈ m.head?, p c = false) :
    (l ++ m).takeWhile p = l ∧ (l ++ m).dropWhile p = m := by
  rw [List.takeWhile_append_of_pos hl, List.dropWhile_append_of_pos hl]
  cases m with
  | nil => simp
  | cons c rest => simp [hm c rfl]

theorem trimEnd_eq_rdropWhile (p : Char → Bool) (l : List Char) :
    trimEnd p l = l.rdropWhile p := rfl

/-- What trimming takes away at the two ends is of the class. -/
theorem exists_trim_append (p : Char → Bool) (l : List Char) :
    ∃ before after, l = before ++ trim p l ++ after ∧
      (∀ c ∈ before, p c = true) ∧ ∀ c ∈ after, p c = true := by
  refine ⟨l.takeWhile p, (l.dropWhile p).rtakeWhile p, ?_, fun c ↦ List.mem_takeWhile_imp,
    fun c ↦ List.mem_rtakeWhile_imp⟩
  rw [trim, trimStart, trimEnd_eq_rdropWhile, List.append_assoc,
    List.rdropWhile_append_rtakeWhile, List.takeWhile_append_dropWhile]

theorem trim_isInfix (p : Char → Bool) (l : List Char) : trim p l <:+: l := by
  obtain ⟨before, after, hl, -, -⟩ := exists_trim_append p l
  exact ⟨before, after, hl.symm⟩

theorem trimStart_eq_self_iff : trimStart p l = l ↔ ∀ c ∈ l.head?, p c = false := by
  cases l with
  | nil => simp [trimStart]
  | cons c rest => simp [trimStart, List.dropWhile_eq_self_iff]

theorem trimEnd_eq_self_iff : trimEnd p l = l ↔ ∀ c ∈ l.getLast?, p c = false := by
  rw [trimEnd_eq_rdropWhile, List.rdropWhile_eq_self_iff]
  rcases List.eq_nil_or_concat l with rfl | ⟨start, c, rfl⟩ <;> simp

theorem trim_eq_self_iff :
    trim p l = l ↔ (∀ c ∈ l.head?, p c = false) ∧ ∀ c ∈ l.getLast?, p c = false := by
  rw [← trimStart_eq_self_iff, ← trimEnd_eq_self_iff]
  constructor
  · intro h
    -- Each of the two steps only shortens the text.
    have hstart : trimStart p l = l := by
      refine (List.dropWhile_suffix p).eq_of_length_le ?_
      calc l.length = (trimEnd p (trimStart p l)).length := by rw [← trim, h]
        _ ≤ (trimStart p l).length := (List.rdropWhile_prefix p _).length_le
    exact ⟨hstart, by rwa [trim, hstart] at h⟩
  · rintro ⟨hstart, hend⟩
    rw [trim, hstart, hend]

/-- A trimmed text has nothing more to trim. -/
@[simp] theorem trim_trim (p : Char → Bool) (l : List Char) : trim p (trim p l) = trim p l := by
  rw [trim_eq_self_iff]
  constructor
  · intro c hc
    obtain ⟨rest, hrest⟩ : ∃ rest, trim p l = c :: rest := by
      rw [Option.mem_def, List.head?_eq_some_iff] at hc
      exact hc
    obtain ⟨more, hmore⟩ : trim p l <+: trimStart p l := List.rdropWhile_prefix p _
    rw [hrest, List.cons_append] at hmore
    have hhead := List.head?_dropWhile_not p l
    rw [show l.dropWhile p = c :: (rest ++ more) from hmore.symm] at hhead
    simpa using hhead
  · rw [← trimEnd_eq_self_iff, trim, trimEnd_eq_rdropWhile, trimEnd_eq_rdropWhile,
      List.rdropWhile_idempotent]

theorem trim_of_forall (h : ∀ c ∈ l, p c = false) : trim p l = l :=
  trim_eq_self_iff.2
    ⟨fun c hc ↦ h c (List.mem_of_head? hc), fun c hc ↦ h c (List.mem_of_getLast? hc)⟩

/-- What stands around a trimmed text is taken away from it. -/
theorem trim_append {before after : List Char} (hbefore : ∀ c ∈ before, p c = true)
    (hafter : ∀ c ∈ after, p c = true) (hl : trim p l = l) : trim p (before ++ l ++ after) = l := by
  obtain ⟨hhead, hlast⟩ := trim_eq_self_iff.1 hl
  have hstart : trimStart p (before ++ l ++ after) = trimStart p (l ++ after) := by
    rw [trimStart, trimStart, List.append_assoc, List.dropWhile_append_of_pos hbefore]
  cases l with
  | nil =>
    rw [trim, hstart, trimStart, List.nil_append, List.dropWhile_eq_nil_iff.2 hafter]
    rfl
  | cons c rest =>
    have hkept : trimStart p (c :: rest ++ after) = c :: rest ++ after :=
      trimStart_eq_self_iff.2 (by simpa using hhead)
    have hreverse : ∀ x ∈ (c :: rest).reverse.head?, p x = false := by
      rwa [List.head?_reverse]
    have hback : ∀ x ∈ after.reverse, p x = true := fun x hx ↦ hafter x (List.mem_reverse.1 hx)
    have hend := (takeWhile_dropWhile_append hback hreverse).2
    rw [trim, hstart, hkept, trimEnd, List.reverse_append, hend, List.reverse_reverse]

/-- Trimmed texts joined by a character are trimmed as a whole if the character is not of the class
or none of the texts is empty. -/
theorem trim_intercalate {sep : Char} {ls : List (List Char)} (hsep : p sep = false ∨ [] ∉ ls)
    (h : ∀ l ∈ ls, trim p l = l) : trim p ([sep].intercalate ls) = [sep].intercalate ls := by
  induction ls with
  | nil => rfl
  | cons first rest ih =>
    rw [List.forall_mem_cons] at h
    cases rest with
    | nil => simpa using h.1
    | cons second more =>
      have hmore : p sep = false ∨ [] ∉ second :: more :=
        hsep.imp_right fun hnil hmem ↦ hnil (List.mem_cons_of_mem first hmem)
      have hfirst := trim_eq_self_iff.1 h.1
      have hrest := trim_eq_self_iff.1 (ih hmore h.2)
      have hjoined : p sep = false ∨ [sep].intercalate (second :: more) ≠ [] := by
        refine hmore.imp_right fun hnil hempty ↦ ?_
        cases second with
        | nil => exact hnil List.mem_cons_self
        | cons c cs => cases more <;> simp [List.intercalate_cons_cons] at hempty
      rw [List.intercalate_cons_cons]
      generalize [sep].intercalate (second :: more) = joined at hrest hjoined
      rw [trim_eq_self_iff]
      constructor
      · cases first with
        | nil => simpa using hsep
        | cons c cs => simpa using hfirst.1
      · rcases List.eq_nil_or_concat joined with rfl | ⟨start, c, rfl⟩
        · simpa using hjoined
        · rw [List.concat_eq_append, List.getLast?_concat] at hrest
          rw [List.concat_eq_append, ← List.append_assoc, List.getLast?_concat]
          exact hrest.2

theorem strip_eq_self_iff {s : String} : strip s = s ↔ trim isBlank s.toList = s.toList := by
  rw [strip, ← String.toList_inj, String.toList_ofList]

theorem toList_strip (s : String) : (strip s).toList = trim isBlank s.toList := by
  rw [strip, String.toList_ofList]

end Scaffold.Text
