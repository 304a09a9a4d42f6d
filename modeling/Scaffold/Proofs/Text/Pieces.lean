import Scaffold.Proofs.Text.Trimming
import Scaffold.Text.Pieces

/-!
# The pieces of a text

What a text holds, and what it is cut into. A text that is extended behind a line feed keeps its
lines and gets those of what is added. A text can be a line only if it has no line feeds itself, and
then the whole text holds it; the converse fails, as a text may be held inside a longer line. A
comma list has the items of its parts, whether they are joined or not.
-/

namespace Scaffold.Text

/-! ## Searching -/

theorem occursIn_eq_true_iff (part s : List Char) : occursIn part s = true ↔ part <:+: s := by
  induction s with
  | nil => simp [occursIn]
  | cons c rest ih => simp [occursIn, ih, List.infix_cons_iff]

theorem contains_iff {s part : String} : contains s part = true ↔ part.toList <:+: s.toList :=
  occursIn_eq_true_iff _ _

/-- A list without the separator stands on one side of it. -/
theorem infix_append_cons_iff {α : Type} {sep : α} {l a b : List α} (h : sep ∉ l) :
    l <:+: a ++ sep :: b ↔ l <:+: a ∨ l <:+: b := by
  constructor
  · intro hl
    rcases List.infix_append_iff.1 hl with ha | hb | ⟨l₁, l₂, rfl, ha, hb⟩
    · exact .inl ha
    · rcases List.infix_cons_iff.1 hb with hpre | hb
      · rcases List.prefix_cons_iff.1 hpre with rfl | ⟨t, rfl, -⟩
        · exact .inl (List.nil_infix)
        · simp at h
      · exact .inr hb
    · rcases List.prefix_cons_iff.1 hb with rfl | ⟨t, rfl, -⟩
      · rw [List.append_nil]
        exact .inl ha.isInfix
      · simp at h
  · rintro (ha | hb)
    · exact ha.trans (List.prefix_append _ _).isInfix
    · exact hb.trans ((List.suffix_cons _ _).trans (List.suffix_append _ _)).isInfix

/-! ## Cutting -/

theorem not_mem_of_mem_splitOn {sep : Char} {s piece : List Char} (h : piece ∈ s.splitOn sep) :
    sep ∉ piece := by
  induction s generalizing piece with
  | nil =>
    rw [List.splitOn_nil, List.mem_singleton] at h
    simp [h]
  | cons c rest ih =>
    rw [List.splitOn_cons_eq_if_modifyHead] at h
    split at h
    · rcases List.mem_cons.1 h with rfl | h
      · simp
      · exact ih h
    · next hc =>
      rcases hrest : rest.splitOn sep with - | ⟨first, more⟩
      · simp [hrest] at h
      · rw [hrest] at h ih
        rcases List.mem_cons.1 h with rfl | h
        · have hne : sep ≠ c := fun heq ↦ hc (by simp [heq])
          simp [hne, ih (List.mem_cons_self)]
        · exact ih (List.mem_cons_of_mem _ h)

theorem infix_intercalate {α : Type} {sep l : List α} {ls : List (List α)} (h : l ∈ ls) :
    l <:+: sep.intercalate ls := by
  induction ls with
  | nil => cases h
  | cons first rest ih =>
    cases rest with
    | nil =>
      obtain rfl := List.mem_singleton.1 h
      simp
    | cons second more =>
      rw [List.intercalate_cons_cons]
      cases List.mem_cons.1 h with
      | inl hfirst =>
        subst hfirst
        exact ((List.prefix_append _ _).trans (List.prefix_append _ _)).isInfix
      | inr hrest => exact (ih hrest).trans (List.suffix_append _ _).isInfix

theorem splitOn_append_cons (sep : Char) (l m : List Char) :
    (l ++ sep :: m).splitOn sep = l.splitOn sep ++ m.splitOn sep := by
  induction l with
  | nil => simp [List.splitOn_cons_eq_if_modifyHead]
  | cons c rest ih =>
    rw [List.cons_append, List.splitOn_cons_eq_if_modifyHead, List.splitOn_cons_eq_if_modifyHead, ih]
    split
    · rfl
    · obtain ⟨first, more, hsplit⟩ := List.exists_cons_of_ne_nil (List.splitOn_ne_nil sep rest)
      simp [hsplit]

theorem splitOn_eq_singleton {sep : Char} {l : List Char} (h : sep ∉ l) : l.splitOn sep = [l] := by
  have hjoin : ([sep].intercalate [l]).splitOn sep = [l] :=
    List.splitOn_intercalate sep (by simpa using h) (by simp)
  rwa [List.intercalate_singleton] at hjoin

/-! ## Items of comma lists -/

theorem items_append_comma (s t : String) : items (s ++ "," ++ t) = items s ++ items t := by
  have hcut : cut ',' (s ++ "," ++ t) = cut ',' s ++ cut ',' t := by
    simp [cut, splitOn_append_cons]
  simp [items, hcut]

/-- A joined text has the items of its parts. -/
theorem items_intercalate (lines : List String) :
    items (",".intercalate lines) = lines.flatMap items := by
  induction lines with
  | nil => rfl
  | cons first rest ih =>
    cases rest with
    | nil => simp
    | cons second more =>
      rw [String.intercalate_cons_cons, items_append_comma, ih, ← List.flatMap_cons]

/-- A text has the items of the parts between its commas. -/
theorem flatMap_items_cut (s : String) : (cut ',' s).flatMap items = items s := by
  rw [← items_intercalate]
  congr 1
  rw [← String.toList_inj, String.toList_intercalate, cut, List.map_map]
  have hid : (String.toList ∘ String.ofList) = id := funext fun l ↦ String.toList_ofList
  rw [hid, List.map_id]
  exact List.intercalate_splitOn ','

/-- An item has no commas and no blanks around it, so it is its own only item. -/
theorem items_of_mem_items {s item : String} (h : item ∈ items s) : items item = [item] := by
  obtain ⟨hmem, hne⟩ := List.mem_filter.1 h
  obtain ⟨piece, hpiece, rfl⟩ := List.mem_map.1 hmem
  obtain ⟨l, hl, rfl⟩ := List.mem_map.1 hpiece
  have hcomma : ',' ∉ (strip (String.ofList l)).toList := by
    rw [toList_strip, String.toList_ofList]
    exact fun hcomma ↦ not_mem_of_mem_splitOn hl ((trim_isInfix isBlank l).subset hcomma)
  have hcut : cut ',' (strip (String.ofList l)) = [strip (String.ofList l)] := by
    rw [cut, splitOn_eq_singleton hcomma, List.map_singleton, String.ofList_toList]
  have hstrip : strip (strip (String.ofList l)) = strip (String.ofList l) := by
    rw [strip_eq_self_iff, toList_strip, trim_trim]
  rw [items, hcut, List.map_singleton, hstrip, List.filter_singleton, hne]
  rfl

theorem flatMap_items_items (s : String) : (items s).flatMap items = items s := by
  rw [List.flatMap_congr fun item hitem ↦ items_of_mem_items hitem]
  exact List.flatMap_pure_eq_map id _ |>.trans (List.map_id _)

/-! ## Lines -/

/-- The text has a line that is `line` up to blanks at its ends. -/
def HasLine (text line : String) : Prop := ∃ l ∈ cut '\n' text, strip l = line

instance (text line : String) : Decidable (HasLine text line) :=
  inferInstanceAs (Decidable (∃ l ∈ cut '\n' text, strip l = line))

variable {text line : String}

theorem HasLine.exists_splitOn (h : HasLine text line) :
    ∃ l ∈ text.toList.splitOn '\n', line.toList <:+: l := by
  obtain ⟨_, hcut, rfl⟩ := h
  obtain ⟨l, hl, rfl⟩ := List.mem_map.1 hcut
  refine ⟨l, hl, ?_⟩
  rw [toList_strip, String.toList_ofList]
  exact trim_isInfix _ l

theorem HasLine.feed_not_mem (h : HasLine text line) : '\n' ∉ line.toList := by
  obtain ⟨l, hl, hpart⟩ := h.exists_splitOn
  exact fun hmem ↦ not_mem_of_mem_splitOn hl (hpart.subset hmem)

/-- A text holds its lines. -/
theorem HasLine.contains (h : HasLine text line) : Text.contains text line = true := by
  obtain ⟨l, hl, hpart⟩ := h.exists_splitOn
  have hjoin : ['\n'].intercalate (text.toList.splitOn '\n') = text.toList :=
    List.intercalate_splitOn '\n'
  rw [contains_iff, ← hjoin]
  exact hpart.trans (infix_intercalate hl)

/-- A trimmed text without line feeds is a line of each text that it is added to on its own. -/
theorem hasLine_append (hfeed : '\n' ∉ line.toList) (htrim : strip line = line) :
    HasLine (text ++ "\n" ++ line ++ "\n") line := by
  refine ⟨line, List.mem_map.2 ⟨line.toList, ?_, String.ofList_toList⟩, htrim⟩
  have happend : (text ++ "\n" ++ line ++ "\n").toList =
      text.toList ++ '\n' :: (line.toList ++ '\n' :: []) := by
    simp
  rw [happend, splitOn_append_cons, splitOn_append_cons, splitOn_eq_singleton hfeed]
  simp

end Scaffold.Text
