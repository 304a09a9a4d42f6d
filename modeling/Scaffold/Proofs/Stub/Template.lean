import Mathlib
import Scaffold.Stub.Template
import Scaffold.Proofs.Text.Trimming

/-!
# Filling templates

A slot is a name with blanks around it in doubled curly brackets (`IsSlot`). No slot is the start of
another one, so a template can be read from left to right in one way only (`Reads`): where a slot
starts it is taken, and any other character stands for itself. `pieces` reads a template in this
way, and filling puts a text in the place of each slot without looking at what it has put there.
-/

namespace Scaffold.Stub

open Text

variable {c : Char} {s rest name written : List Char} {p : Piece} {ps : List Piece}
  {key value : String} {values : List (String × String)}

/-! ## Slots -/

/-- Letters, digits and underscores, of which the first is no digit. -/
structure IsName (name : List Char) : Prop where
  start : ∃ c ∈ name.head?, isSlotStart c = true
  chars : ∀ c ∈ name, isSlotChar c = true

/-- How a slot with a name may be written. -/
def IsSlot (name written : List Char) : Prop :=
  IsName name ∧ ∃ before after, (∀ c ∈ before, isBlank c = true) ∧ (∀ c ∈ after, isBlank c = true) ∧
    written = ['\x7b', '\x7b'] ++ before ++ name ++ after ++ ['\x7d', '\x7d']

theorem isBlank_of_isSlotChar (h : isSlotChar c = true) : isBlank c = false := by
  have hrange : 48 ≤ c.toNat ∧ c.toNat ≤ 122 := by
    simp only [isSlotChar, Char.isAlphanum, Char.isAlpha, Char.isUpper, Char.isLower, Char.isDigit,
      Bool.or_eq_true, Bool.and_eq_true, decide_eq_true_eq, beq_iff_eq, UInt32.le_iff_toNat_le,
      ge_iff_le] at h
    change (((65 ≤ c.toNat ∧ c.toNat ≤ 90) ∨ (97 ≤ c.toNat ∧ c.toNat ≤ 122)) ∨
      (48 ≤ c.toNat ∧ c.toNat ≤ 57)) ∨ c = '_' at h
    rcases h with h | rfl
    · omega
    · decide
  simp only [isBlank, Bool.or_eq_false_iff, Bool.and_eq_false_iff, decide_eq_false_iff_not,
    beq_eq_false_iff_ne]
  omega

theorem isSlotChar_of_isBlank (h : isBlank c = true) : isSlotChar c = false := by
  by_contra hslot
  rw [Bool.not_eq_false] at hslot
  rw [isBlank_of_isSlotChar hslot] at h
  cases h

/-- A slot is found where one is written, whatever follows. -/
theorem slotAt?_append (h : IsSlot name written) (rest : List Char) :
    slotAt? (written ++ rest) = some (.slot name written) := by
  obtain ⟨hname, before, after, hbefore, hafter, rfl⟩ := h
  obtain ⟨c, more, rfl⟩ : ∃ c more, name = c :: more := by
    obtain ⟨c, hc, -⟩ := hname.start
    exact ⟨c, _, List.eq_cons_of_mem_head? hc⟩
  have hstart : isSlotStart c = true := by simpa using hname.start
  -- The name ends at a blank or at a bracket, and neither may stand in a name.
  have hend : ∀ d ∈ (after ++ '\x7d' :: '\x7d' :: rest).head?, isSlotChar d = false := by
    cases after with
    | nil => simp; decide
    | cons d _ => simpa using isSlotChar_of_isBlank (hafter d (by simp))
  obtain ⟨hbefore₁, hbefore₂⟩ := takeWhile_dropWhile_append
    (m := c :: more ++ (after ++ '\x7d' :: '\x7d' :: rest)) hbefore
    (by simpa using isBlank_of_isSlotChar (hname.chars c (by simp)))
  obtain ⟨hname₁, hname₂⟩ := takeWhile_dropWhile_append hname.chars hend
  obtain ⟨hafter₁, hafter₂⟩ := takeWhile_dropWhile_append
    (m := '\x7d' :: '\x7d' :: rest) hafter (by simp; decide)
  have hshape : ['\x7b', '\x7b'] ++ before ++ (c :: more) ++ after ++ ['\x7d', '\x7d'] ++ rest =
      '\x7b' :: '\x7b' :: (before ++ (c :: more ++ (after ++ '\x7d' :: '\x7d' :: rest))) := by simp
  rw [hshape, slotAt?]
  simp only [hbefore₁, hbefore₂, hname₁, hname₂, hafter₁, hafter₂, hstart, if_true]
  simp

theorem exists_isSlot_of_slotAt? (h : slotAt? s = some p) :
    ∃ name written rest, IsSlot name written ∧ p = .slot name written ∧ s = written ++ rest := by
  rw [slotAt?.eq_def] at h
  split at h
  · next more =>
    dsimp only at h
    split at h
    · next c tail rest hname hrest =>
      rw [Option.ite_none_right_eq_some, Option.some_inj] at h
      obtain ⟨hstart, rfl⟩ := h
      have hsplit : more.takeWhile isBlank ++ ((more.dropWhile isBlank).takeWhile isSlotChar ++
          (((more.dropWhile isBlank).dropWhile isSlotChar).takeWhile isBlank ++
            '\x7d' :: '\x7d' :: rest)) = more := by
        rw [← hrest, List.takeWhile_append_dropWhile, List.takeWhile_append_dropWhile,
          List.takeWhile_append_dropWhile]
      refine ⟨_, _, rest, ⟨⟨⟨c, by rw [hname]; rfl, hstart⟩, fun d ↦ List.mem_takeWhile_imp⟩,
        _, _, fun d ↦ List.mem_takeWhile_imp, fun d ↦ List.mem_takeWhile_imp, rfl⟩, rfl, ?_⟩
      conv_lhs => rw [← hsplit]
      simp only [List.append_assoc, List.cons_append, List.nil_append]
    · cases h
  · cases h

/-- Exactly the slots that are written at the start of a text are found there. -/
theorem slotAt?_eq_some_iff : slotAt? s = some p ↔
    ∃ name written rest, IsSlot name written ∧ p = .slot name written ∧ s = written ++ rest := by
  refine ⟨exists_isSlot_of_slotAt?, ?_⟩
  rintro ⟨name, written, rest, hslot, rfl, rfl⟩
  exact slotAt?_append hslot rest

theorem IsSlot.ne_nil (h : IsSlot name written) : written ≠ [] := by
  obtain ⟨-, before, after, -, -, rfl⟩ := h
  simp

theorem slotAt?_eq_none_iff :
    slotAt? s = none ↔ ∀ name written, IsSlot name written → ¬written <+: s := by
  constructor
  · rintro h name written hslot ⟨rest, rfl⟩
    rw [slotAt?_append hslot rest] at h
    cases h
  · intro h
    rw [Option.eq_none_iff_forall_ne_some]
    intro p hp
    obtain ⟨name, written, rest, hslot, -, rfl⟩ := slotAt?_eq_some_iff.1 hp
    exact h name written hslot (List.prefix_append _ _)

/-! ## Pieces -/

/-- A template is read from left to right: wherever a slot starts it is taken, and any other
character stands for itself. -/
inductive Reads : List Char → List Piece → Prop
  | nil : Reads [] []
  | plain {c : Char} {rest : List Char} {ps : List Piece}
      (h : ∀ name written, IsSlot name written → ¬written <+: c :: rest) (hrest : Reads rest ps) :
      Reads (c :: rest) (.plain c :: ps)
  | slot {name written rest : List Char} {ps : List Piece}
      (h : IsSlot name written) (hrest : Reads rest ps) :
      Reads (written ++ rest) (.slot name written :: ps)

theorem piecesAfter_eq_drop (skip : ℕ) (s : List Char) :
    piecesAfter skip s = piecesAfter 0 (s.drop skip) := by
  induction s generalizing skip with
  | nil => simp [piecesAfter]
  | cons c rest ih =>
    cases skip with
    | zero => rfl
    | succ n => rw [piecesAfter, ih, List.drop_succ_cons]

theorem piecesAfter_append (h : IsSlot name written) (rest : List Char) :
    piecesAfter 0 (written ++ rest) = .slot name written :: piecesAfter 0 rest := by
  have hfound := slotAt?_append h rest
  obtain ⟨c, more, rfl⟩ := List.exists_cons_of_ne_nil h.ne_nil
  rw [List.cons_append] at hfound ⊢
  rw [piecesAfter, hfound]
  simp only [Piece.written, List.length_cons, Nat.add_sub_cancel]
  rw [piecesAfter_eq_drop, List.drop_left]

/-- Characters before the first bracket stand for themselves. -/
theorem piecesAfter_append_of_notMem (h : '\x7b' ∉ s) (rest : List Char) :
    piecesAfter 0 (s ++ rest) = s.map .plain ++ piecesAfter 0 rest := by
  induction s with
  | nil => rfl
  | cons c s ih =>
    rw [List.mem_cons, not_or] at h
    have hnone : slotAt? (c :: (s ++ rest)) = none := by
      refine slotAt?_eq_none_iff.2 fun name written hslot hpre ↦ h.1 ?_
      obtain ⟨-, before, after, -, -, rfl⟩ := hslot
      exact (List.cons_prefix_cons.1 hpre).1
    rw [List.cons_append, piecesAfter, hnone, ih h.2]
    rfl

theorem Reads.eq (h : Reads s ps) : piecesAfter 0 s = ps := by
  induction h with
  | nil => rfl
  | plain h _ ih => rw [piecesAfter, slotAt?_eq_none_iff.2 h, ih]
  | slot h _ ih => rw [piecesAfter_append h, ih]

theorem reads_piecesAfter (s : List Char) : Reads s (piecesAfter 0 s) := by
  induction hn : s.length using Nat.strong_induction_on generalizing s with
  | _ n ih =>
    cases s with
    | nil => exact .nil
    | cons c more =>
      cases hslot : slotAt? (c :: more) with
      | none =>
        rw [piecesAfter, hslot]
        exact .plain (slotAt?_eq_none_iff.1 hslot) (ih _ (by simp [← hn]) more rfl)
      | some p =>
        obtain ⟨name, written, rest, h, rfl, hs⟩ := slotAt?_eq_some_iff.1 hslot
        have hlength : rest.length < n := by
          rw [← hn, hs, List.length_append]
          exact Nat.lt_add_of_pos_left (List.length_pos_iff.2 h.ne_nil)
        rw [hs, piecesAfter_append h]
        exact .slot h (ih _ hlength rest rfl)

/-- There is one way to read a template. -/
theorem reads_iff : Reads s ps ↔ ps = piecesAfter 0 s :=
  ⟨fun h ↦ h.eq.symm, by rintro rfl; exact reads_piecesAfter s⟩

/-- Nothing of a template is lost. -/
theorem Reads.flatMap_written (h : Reads s ps) : ps.flatMap Piece.written = s := by
  induction h with
  | nil => rfl
  | plain _ _ ih => rw [List.flatMap_cons, ih, Piece.written, List.singleton_append]
  | slot _ _ ih => rw [List.flatMap_cons, ih, Piece.written]

/-! ## Values -/

/-- The key is the name itself, or a slot with this name that may have blanks around it. -/
def Names (key : String) (name : List Char) : Prop :=
  key.toList = name ∨ IsSlot name (trim isBlank key.toList)

/-- The value is given under a key for the name, and no such key follows. -/
def LastGiven (values : List (String × String)) (name : List Char) (value : String) : Prop :=
  ∃ before key after, values = before ++ (key, value) :: after ∧ Names key name ∧
    ∀ v ∈ after, ¬Names v.1 name

theorem IsName.slotAt?_eq_none (h : IsName name) : slotAt? name = none := by
  rw [slotAt?_eq_none_iff]
  rintro other written ⟨-, before, after, -, -, rfl⟩ ⟨rest, rfl⟩
  have := h.chars '\x7b' (by simp)
  exact absurd this (by decide)

theorem IsName.trim_eq (h : IsName name) : trim isBlank name = name := by
  have hkept (c : Char) (hc : c ∈ name) : isBlank c = false := isBlank_of_isSlotChar (h.chars c hc)
  rw [trim_eq_self_iff]
  exact ⟨fun c hc ↦ hkept c (List.mem_of_mem_head? hc),
    fun c hc ↦ hkept c (List.mem_of_mem_getLast? hc)⟩

/-- A key stands for what it names, and only keys without a slot stand for themselves. -/
theorem slotName_eq_iff (h : IsName name) : slotName key = String.ofList name ↔ Names key name := by
  have hself : key = String.ofList name ↔ key.toList = name := by
    rw [← String.toList_inj, String.toList_ofList]
  rw [slotName]
  cases hslot : slotAt? (trim isBlank key.toList) with
  | none =>
    have hbraced : ¬IsSlot name (trim isBlank key.toList) := fun hbraced ↦
      slotAt?_eq_none_iff.1 hslot _ _ hbraced (List.prefix_refl _)
    simp [Names, hself, hbraced]
  | some p =>
    obtain ⟨other, written, rest, hother, rfl, htrim⟩ := slotAt?_eq_some_iff.1 hslot
    have hbare : key.toList ≠ name := by
      rintro rfl
      rw [h.trim_eq, h.slotAt?_eq_none] at hslot
      cases hslot
    have hbraced : IsSlot name (trim isBlank key.toList) ↔
        other = name ∧ written.length = (trim isBlank key.toList).length := by
      constructor
      · intro hbraced
        have hwhole := slotAt?_append hbraced []
        rw [List.append_nil, hslot] at hwhole
        obtain ⟨rfl, rfl⟩ := Piece.slot.inj (Option.some.inj hwhole)
        exact ⟨rfl, rfl⟩
      · rintro ⟨rfl, hlength⟩
        rw [htrim, List.length_append, Nat.left_eq_add, List.length_eq_zero_iff] at hlength
        rwa [htrim, hlength, List.append_nil]
    have hother : String.ofList other = String.ofList name ↔ other = name := by
      rw [← String.toList_inj, String.toList_ofList, String.toList_ofList]
    by_cases hlength : written.length = (trim isBlank key.toList).length
    · simp [Names, hbare, hbraced, hlength, hother]
    · simp [Names, hbare, hbraced, hlength, hself]

theorem valueOf?_eq_some_iff (h : IsName name) :
    valueOf? values (String.ofList name) = some value ↔ LastGiven values name value := by
  rw [valueOf?, Option.map_eq_some_iff]
  constructor
  · rintro ⟨⟨key, value⟩, hfind, rfl⟩
    rw [List.find?_eq_some_iff_append] at hfind
    obtain ⟨hkey, after, before, hvalues, hafter⟩ := hfind
    refine ⟨before.reverse, key, after.reverse, ?_, ?_, fun v hv ↦ ?_⟩
    · rw [← List.reverse_inj, hvalues]
      simp
    · rwa [beq_iff_eq, slotName_eq_iff h] at hkey
    · have hother := hafter v (List.mem_reverse.1 hv)
      rwa [Bool.not_eq_true', beq_eq_false_iff_ne, ne_eq, slotName_eq_iff h] at hother
  · rintro ⟨before, key, after, rfl, hkey, hafter⟩
    refine ⟨(key, value), ?_, rfl⟩
    rw [List.find?_eq_some_iff_append]
    refine ⟨beq_iff_eq.2 ((slotName_eq_iff h).2 hkey), after.reverse, before.reverse, by simp,
      fun v hv ↦ ?_⟩
    rw [Bool.not_eq_true', beq_eq_false_iff_ne, ne_eq, slotName_eq_iff h]
    exact hafter v (List.mem_reverse.1 hv)

theorem valueOf?_eq_none_iff (h : IsName name) :
    valueOf? values (String.ofList name) = none ↔ ∀ v ∈ values, ¬Names v.1 name := by
  simp [valueOf?, slotName_eq_iff h]

/-- What takes the place of a piece: a slot is replaced by the last value given for its name, or
stays as it is written if there is none. -/
inductive Filled (values : List (String × String)) : Piece → List Char → Prop
  | plain (c : Char) : Filled values (.plain c) [c]
  | given {name : List Char} {value : String} (written : List Char)
      (h : LastGiven values name value) : Filled values (.slot name written) value.toList
  | kept {name : List Char} (written : List Char) (h : ∀ v ∈ values, ¬Names v.1 name) :
      Filled values (.slot name written) written

theorem filled_slot_iff (h : IsName name) {l : List Char} :
    Filled values (.slot name written) l ↔ l = fill values (.slot name written) := by
  rw [fill]
  cases hvalue : valueOf? values (String.ofList name) with
  | none =>
    have hnone := (valueOf?_eq_none_iff h).1 hvalue
    refine ⟨fun hfilled ↦ ?_, fun hl ↦ hl ▸ .kept written hnone⟩
    cases hfilled with
    | given _ hgiven =>
      rw [(valueOf?_eq_some_iff h).2 hgiven] at hvalue
      cases hvalue
    | kept => rfl
  | some value =>
    refine ⟨fun hfilled ↦ ?_, fun hl ↦ hl ▸ .given written ((valueOf?_eq_some_iff h).1 hvalue)⟩
    cases hfilled with
    | given _ hgiven =>
      rw [(valueOf?_eq_some_iff h).2 hgiven] at hvalue
      obtain rfl := Option.some.inj hvalue
      rfl
    | kept _ hkept =>
      rw [(valueOf?_eq_none_iff h).2 hkept] at hvalue
      cases hvalue

/-- The pieces of a template are filled one by one. -/
theorem Reads.forall₂_filled_iff (h : Reads s ps) {texts : List (List Char)} :
    List.Forall₂ (Filled values) ps texts ↔ texts = ps.map (fill values) := by
  induction h generalizing texts with
  | nil => simp
  | @plain c rest ps _ _ ih =>
    have hplain (l : List Char) : Filled values (.plain c) l ↔ l = fill values (.plain c) :=
      ⟨by rintro ⟨⟩; rfl, by rintro rfl; exact .plain c⟩
    rw [List.forall₂_cons_left_iff, List.map_cons]
    simp only [hplain, ih]
    exact ⟨by rintro ⟨_, _, rfl, rfl, rfl⟩; rfl, fun h ↦ ⟨_, _, rfl, rfl, h⟩⟩
  | slot hslot _ ih =>
    rw [List.forall₂_cons_left_iff, List.map_cons]
    simp only [filled_slot_iff hslot.1, ih]
    exact ⟨by rintro ⟨_, _, rfl, rfl, rfl⟩; rfl, fun h ↦ ⟨_, _, rfl, rfl, h⟩⟩

/-- What stands before the first bracket of a template is not changed. -/
theorem render_append {front : String} (h : '\x7b' ∉ front.toList) (template : String)
    (values : List (String × String)) :
    render (front ++ template) values = front ++ render template values := by
  have hplain : (front.toList.map Piece.plain).flatMap (fill values) = front.toList := by
    rw [List.flatMap_map]
    exact List.flatMap_singleton' _
  rw [← String.toList_inj, render, render, pieces, pieces, String.toList_append,
    piecesAfter_append_of_notMem h, String.toList_ofList, String.toList_append,
    String.toList_ofList, List.flatMap_append, hplain]

def Piece.name? : Piece → Option String
  | .plain _ => none
  | .slot name _ => some (String.ofList name)

theorem slotNames_eq (template : String) :
    slotNames template = ((pieces template).filterMap Piece.name?).eraseDups := rfl

/-- A template is read in one way, which does not depend on the values. Its pieces put together are
the template, and the names of its slots are told without repetitions. It is filled by putting the
last value that is given for the name of a slot in the place of each slot, and nothing else changes:
neither slots without values nor what looks like a slot in a value. -/
theorem render_iff (template : String) :
    ∃ parts, (∀ ps, Reads template.toList ps ↔ ps = parts) ∧
      parts.flatMap Piece.written = template.toList ∧
      slotNames template = (parts.filterMap Piece.name?).eraseDups ∧
      ∀ values result, render template values = result ↔
        ∃ texts, List.Forall₂ (Filled values) parts texts ∧ result.toList = texts.flatten := by
  have hreads : Reads template.toList (pieces template) := reads_piecesAfter _
  refine ⟨pieces template, fun ps ↦ reads_iff, hreads.flatMap_written, slotNames_eq template,
    fun values result ↦ ?_⟩
  have hrender :
      (render template values).toList = ((pieces template).map (fill values)).flatten := by
    rw [render, String.toList_ofList, List.flatMap_def]
  simp only [hreads.forall₂_filled_iff, exists_eq_left, ← hrender]
  rw [← String.toList_inj, eq_comm]

example : render "{{{ a }}} {{ b }}{{c}}" [("b", "1"), ("{{a}}", "{{ b }}"), (" {{ b }} ", "2")] =
    "{{{ b }}} 2{{c}}" := by decide

end Scaffold.Stub
