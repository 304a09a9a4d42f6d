import Mathlib
import Scaffold.Proofs.Text.Quoted

/-!
# Reading list literals

A list literal is read item by item between its brackets, with blanks anywhere between its parts and
perhaps a comma behind the last item. An item ends where its literal ends, so brackets and commas in
it do not count. A list of texts is read back from its literal (`readList_quotedList`), which
therefore belongs to no other list.
-/

namespace Scaffold.Text

/-! ## Escaping in two steps -/

/-- The text with `new` in the place of each `old`. -/
def replaceEach (old : Char) (new l : List Char) : List Char :=
  l.flatMap fun c ↦ if c = old then new else [c]

theorem replaceEach_append (old : Char) (new l m : List Char) :
    replaceEach old new (l ++ m) = replaceEach old new l ++ replaceEach old new m :=
  List.flatMap_append

/-- Escaping is doubling the backslashes first and putting one before each quote afterwards. -/
theorem escapeQuoted_eq_replaceEach (l : List Char) :
    escapeQuoted l = replaceEach '\'' ['\\', '\''] (replaceEach '\\' ['\\', '\\'] l) := by
  induction l with
  | nil => rfl
  | cons c rest ih =>
    have hstep : escapeQuoted (c :: rest) =
        replaceEach '\'' ['\\', '\''] (replaceEach '\\' ['\\', '\\'] [c]) ++ escapeQuoted rest := by
      by_cases hslash : c = '\\'
      · subst hslash
        rfl
      · by_cases hquote : c = '\''
        · subst hquote
          rfl
        · simp [escapeQuoted, replaceEach, hslash, hquote]
    rw [hstep, ih, ← replaceEach_append, ← replaceEach_append, List.singleton_append]

/-- In the other order the backslash before a quote would be doubled as well. -/
example : replaceEach '\\' ['\\', '\\'] (replaceEach '\'' ['\\', '\''] ['\'']) ≠
    escapeQuoted ['\''] := by decide

/-! ## Reading items -/

theorem length_lt_of_readQuoted {l s rest : List Char} (h : readQuoted l = some (s, rest)) :
    rest.length < l.length := by
  cases l with
  | nil => cases h
  | cons c more =>
    by_cases hc : c = '\''
    · subst hc
      have := length_lt_of_readBody h
      simp only [List.length_cons]
      omega
    · rw [readQuoted] at h
      · cases h
      · exact fun _ heq ↦ hc (List.cons.inj heq).1

/-- The blanks that may stand between the parts of a list literal. -/
def isGap (c : Char) : Bool := c == ' ' || c == '\t' || c == '\n' || c == '\r'

/-- Reads one item; gives its text and what comes after the item and the blanks behind it. -/
def readItem (l : List Char) : Option (List Char × List Char) :=
  (readQuoted (l.dropWhile isGap)).map fun (item, rest) ↦ (item, rest.dropWhile isGap)

theorem length_lt_of_readItem {l item rest : List Char} (h : readItem l = some (item, rest)) :
    rest.length < l.length := by
  obtain ⟨⟨item, behind⟩, hread, heq⟩ := Option.map_eq_some_iff.1 h
  obtain ⟨rfl, rfl⟩ := Prod.mk.inj heq
  calc (behind.dropWhile isGap).length ≤ behind.length := (List.dropWhile_suffix _).length_le
    _ < (l.dropWhile isGap).length := length_lt_of_readQuoted hread
    _ ≤ l.length := (List.dropWhile_suffix _).length_le

/-- Reads items up to the closing bracket; gives their texts and what comes after the bracket. -/
def readItems (l : List Char) : Option (List (List Char) × List Char) :=
  match _hitem : readItem l with
  | some (item, ',' :: more) => (readItems more).map fun (items, after) ↦ (item :: items, after)
  | some (item, ']' :: after) => some ([item], after)
  | some _ => none
  | none =>
    match l.dropWhile isGap with
    | ']' :: after => some ([], after)
    | _ => none
termination_by l.length
decreasing_by
  have := length_lt_of_readItem _hitem
  simp only [List.length_cons] at this
  omega

/-- Reads the list literal that a text starts with; gives the texts in it and what comes after. -/
def readList : List Char → Option (List (List Char) × List Char)
  | '[' :: rest => readItems rest
  | _ => none

variable {l item more after : List Char}

theorem readItems_gap {c : Char} (h : isGap c = true) (l : List Char) :
    readItems (c :: l) = readItems l := by
  have hitem : readItem (c :: l) = readItem l := by
    rw [readItem, readItem, List.dropWhile_cons_of_pos h]
  rw [readItems, readItems, hitem, List.dropWhile_cons_of_pos h]

theorem readItem_quoted (s : String) {c : Char} (hc : isGap c = false) (rest : List Char) :
    readItem ((quoted s).toList ++ c :: rest) = some (s.toList, c :: rest) := by
  have hstart :
      ((quoted s).toList ++ c :: rest).dropWhile isGap = (quoted s).toList ++ c :: rest := by
    simp [quoted, isGap]
  simp [readItem, hstart, readQuoted_quoted, hc]

theorem readItems_of_comma (h : readItem l = some (item, ',' :: more)) :
    readItems l = (readItems more).map fun (items, after) ↦ (item :: items, after) := by
  rw [readItems]
  split <;> simp_all

theorem readItems_of_bracket (h : readItem l = some (item, ']' :: after)) :
    readItems l = some ([item], after) := by
  rw [readItems]
  split <;> simp_all

theorem readItems_nil (after : List Char) : readItems (']' :: after) = some ([], after) := by
  rw [readItems]
  rfl

/-- Items with commas between them are read one after the other. -/
theorem readItems_intercalate (s : String) (texts : List String) (after : List Char) :
    readItems ((", ".intercalate ((s :: texts).map quoted)).toList ++ ']' :: after) =
      some ((s :: texts).map String.toList, after) := by
  induction texts generalizing s with
  | nil =>
    have hlast : readItem ((", ".intercalate ([s].map quoted)).toList ++ ']' :: after) =
        some (s.toList, ']' :: after) := by
      simpa using readItem_quoted s rfl after
    rw [readItems_of_bracket hlast]
    rfl
  | cons t rest ih =>
    have hfirst :
        readItem ((", ".intercalate ((s :: t :: rest).map quoted)).toList ++ ']' :: after) =
          some (s.toList, ',' :: ' ' :: ((", ".intercalate ((t :: rest).map quoted)).toList ++
            ']' :: after)) := by
      rw [← readItem_quoted s rfl]
      simp [String.toList_intercalate]
    rw [readItems_of_comma hfirst, readItems_gap rfl, ih]
    rfl

/-- A list of texts is read back from its literal, and so no other list has this literal. -/
theorem readList_quotedList :
    (∀ (texts : List String) (rest : List Char),
      readList ((quotedList texts).toList ++ rest) = some (texts.map String.toList, rest)) ∧
    Function.Injective quotedList := by
  have hread (texts : List String) (rest : List Char) :
      readList ((quotedList texts).toList ++ rest) = some (texts.map String.toList, rest) := by
    have hshape : (quotedList texts).toList ++ rest =
        '[' :: ((", ".intercalate (texts.map quoted)).toList ++ ']' :: rest) := by
      simp [quotedList]
    rw [hshape, readList]
    cases texts with
    | nil => exact readItems_nil rest
    | cons s more => exact readItems_intercalate s more rest
  refine ⟨hread, fun texts texts' h ↦ ?_⟩
  have hlists : texts.map String.toList = texts'.map String.toList := by
    have hsame := hread texts []
    rw [h, hread texts' []] at hsame
    exact (Prod.mk.inj (Option.some.inj hsame)).1.symm
  exact (List.map_inj_right fun _ _ ↦ String.toList_injective).1 hlists

end Scaffold.Text
