import Mathlib
import Scaffold.Field.Tokens
import Scaffold.Proofs.Text.Trimming

/-!
# Cutting a definition and joining it again

A definition is cut at the colons at depth 0. None of its segments would be cut itself, and only the
last one may leave a parenthesis open. Texts with these two properties (`AreSegments`) are what is
found again after they have been joined by colons (`segments_intercalate`). Both properties are kept
when segments are trimmed or left out, so tokens can be joined and cut again as well. A text is at
depth 0 where none of its ends opens more parentheses than it closes, and it is cut at all colons of
this kind and at no others (`tokens_cut`).
-/

namespace Scaffold.Field

open Text

variable {depth : ℕ} {l m : List Char} {segs : List (List Char)}

/-- The parenthesis depth after a text that is read from the depth `depth`. -/
def depthOver (depth : ℕ) (l : List Char) : ℕ := l.foldl depthAfter depth

/-- Read from the depth `depth`, the text has no colon outside parentheses. -/
def Uncut (depth : ℕ) : List Char → Prop
  | [] => True
  | c :: rest => ¬(c = ':' ∧ depth = 0) ∧ Uncut (depthAfter depth c) rest

theorem depthOver_append (depth : ℕ) (l m : List Char) :
    depthOver depth (l ++ m) = depthOver (depthOver depth l) m := List.foldl_append

theorem uncut_append : Uncut depth (l ++ m) ↔ Uncut depth l ∧ Uncut (depthOver depth l) m := by
  induction l generalizing depth with
  | nil => simp [Uncut, depthOver]
  | cons c rest ih => simp [Uncut, depthOver, ih, and_assoc]

/-! ## Segments -/

theorem segments_of_uncut (h : Uncut depth l) : segments depth l = [l] := by
  induction l generalizing depth with
  | nil => rfl
  | cons c rest ih =>
    have hc : (c == ':' && depth == 0) = false := by simpa using h.1
    rw [segments, hc, ih h.2]
    rfl

theorem segments_ne_nil (depth : ℕ) (l : List Char) : segments depth l ≠ [] := by
  induction l generalizing depth with
  | nil => simp [segments]
  | cons c rest ih =>
    rw [segments]
    split
    · simp
    · cases segments (depthAfter depth c) rest <;> simp [attach]

/-- A colon outside parentheses parts the segments before it from those after it. -/
theorem segments_append_colon (h : depthOver depth l = 0) (m : List Char) :
    segments depth (l ++ ':' :: m) = segments depth l ++ segments 0 m := by
  induction l generalizing depth with
  | nil =>
    obtain rfl : depth = 0 := h
    rfl
  | cons c rest ih =>
    rw [List.cons_append, segments, segments]
    split
    · next hc =>
      have hrest : depthOver 0 rest = 0 := by
        simp only [Bool.and_eq_true, beq_iff_eq] at hc
        rw [hc.1, hc.2] at h
        exact h
      rw [ih hrest, List.cons_append]
    · obtain ⟨first, more, hfirst⟩ :=
        List.exists_cons_of_ne_nil (segments_ne_nil (depthAfter depth c) rest)
      rw [ih h, hfirst]
      rfl

/-- Joined by colons, the segments are the text again. -/
theorem intercalate_segments (depth : ℕ) (l : List Char) :
    [':'].intercalate (segments depth l) = l := by
  induction l generalizing depth with
  | nil => rfl
  | cons c rest ih =>
    rw [segments]
    split
    · next hc =>
      obtain ⟨second, more, hmore⟩ := List.exists_cons_of_ne_nil (segments_ne_nil 0 rest)
      have := ih 0
      rw [hmore] at this
      simp_all [List.intercalate_cons_cons]
    · obtain ⟨first, more, hmore⟩ :=
        List.exists_cons_of_ne_nil (segments_ne_nil (depthAfter depth c) rest)
      have hrest := ih (depthAfter depth c)
      rw [hmore] at hrest ⊢
      cases more with
      | nil => simpa [attach] using hrest
      | cons second more =>
        rw [attach, List.intercalate_cons_cons] at *
        rw [List.cons_append, List.cons_append, hrest]

/-- Texts that can stand between the colons of a definition. -/
structure AreSegments (segs : List (List Char)) : Prop where
  /-- None of them is cut itself. -/
  uncut : ∀ l ∈ segs, Uncut 0 l
  /-- All but the last one close the parentheses that they open. -/
  closed : segs.Pairwise fun l _ ↦ depthOver 0 l = 0

theorem areSegments_cons : AreSegments (l :: segs) ↔
    Uncut 0 l ∧ (segs ≠ [] → depthOver 0 l = 0) ∧ AreSegments segs := by
  have hclosed : (∀ m ∈ segs, depthOver 0 l = 0) ↔ (segs ≠ [] → depthOver 0 l = 0) := by
    cases segs with
    | nil => simp
    | cons first rest => exact ⟨fun h _ ↦ h first (by simp), fun h _ _ ↦ h (by simp)⟩
  constructor
  · rintro ⟨huncut, hpairs⟩
    rw [List.forall_mem_cons] at huncut
    rw [List.pairwise_cons] at hpairs
    exact ⟨huncut.1, hclosed.1 hpairs.1, huncut.2, hpairs.2⟩
  · rintro ⟨huncut, hl, hrest⟩
    exact ⟨List.forall_mem_cons.2 ⟨huncut, hrest.uncut⟩,
      List.pairwise_cons.2 ⟨hclosed.2 hl, hrest.closed⟩⟩

/-- Cutting from any depth: the first segment is read from there, the others from depth 0. -/
theorem exists_segments_eq (depth : ℕ) (l : List Char) : ∃ first rest,
    segments depth l = first :: rest ∧ Uncut depth first ∧
      (rest ≠ [] → depthOver depth first = 0) ∧ AreSegments rest := by
  induction l generalizing depth with
  | nil => exact ⟨[], [], rfl, trivial, by simp, by simp, .nil⟩
  | cons c rest ih =>
    by_cases hc : c = ':' ∧ depth = 0
    · obtain ⟨rfl, rfl⟩ := hc
      obtain ⟨first, more, hsegs, hfirst, hclosed, hmore⟩ := ih 0
      refine ⟨[], segments 0 rest, by simp [segments], trivial, fun _ ↦ rfl, ?_⟩
      rw [hsegs, areSegments_cons]
      exact ⟨hfirst, hclosed, hmore⟩
    · obtain ⟨first, more, hsegs, hfirst, hclosed, hmore⟩ := ih (depthAfter depth c)
      have hkept : (c == ':' && depth == 0) = false := by simpa using hc
      refine ⟨c :: first, more, ?_, ⟨hc, hfirst⟩, hclosed, hmore⟩
      rw [segments, hkept, hsegs]
      rfl

theorem areSegments_segments (l : List Char) : AreSegments (segments 0 l) := by
  obtain ⟨first, rest, hsegs, hfirst, hclosed, hrest⟩ := exists_segments_eq 0 l
  rw [hsegs, areSegments_cons]
  exact ⟨hfirst, hclosed, hrest⟩

/-- Segments are found again where they were joined. -/
theorem segments_intercalate (h : AreSegments segs) (hne : segs ≠ []) :
    segments 0 ([':'].intercalate segs) = segs := by
  induction segs with
  | nil => exact absurd rfl hne
  | cons first rest ih =>
    obtain ⟨hfirst, hclosed, hrest⟩ := areSegments_cons.1 h
    cases rest with
    | nil => simpa using segments_of_uncut hfirst
    | cons second more =>
      rw [List.intercalate_cons_cons, List.append_assoc, List.singleton_append,
        segments_append_colon (hclosed (by simp)), segments_of_uncut hfirst, ih hrest (by simp)]
      rfl

theorem AreSegments.sublist {some : List (List Char)} (h : AreSegments segs)
    (hsub : some.Sublist segs) : AreSegments some :=
  ⟨fun l hl ↦ h.uncut l (hsub.subset hl), h.closed.sublist hsub⟩

/-! ## Blanks -/

/-- Blanks open and close no parentheses. -/
theorem depthOver_of_blank (h : ∀ c ∈ l, isBlank c = true) : depthOver depth l = depth := by
  induction l with
  | nil => rfl
  | cons c rest ih =>
    rw [List.forall_mem_cons] at h
    have hopen : c ≠ '(' := by rintro rfl; exact absurd h.1 (by decide)
    have hclose : c ≠ ')' := by rintro rfl; exact absurd h.1 (by decide)
    have hc : depthAfter depth c = depth := by simp [depthAfter, hopen, hclose]
    rw [depthOver, List.foldl_cons, hc]
    exact ih h.2

theorem depthOver_trim (depth : ℕ) (l : List Char) :
    depthOver depth (trim isBlank l) = depthOver depth l := by
  obtain ⟨before, after, hl, hbefore, hafter⟩ := exists_trim_append isBlank l
  conv_rhs => rw [hl]
  rw [depthOver_append, depthOver_append, depthOver_of_blank hbefore, depthOver_of_blank hafter]

theorem Uncut.trim (h : Uncut depth l) : Uncut depth (Text.trim isBlank l) := by
  obtain ⟨before, after, hl, hbefore, -⟩ := exists_trim_append isBlank l
  rw [hl, uncut_append, uncut_append, depthOver_of_blank hbefore] at h
  exact h.1.2

theorem AreSegments.map_trim (h : AreSegments segs) :
    AreSegments (segs.map (Text.trim isBlank)) := by
  refine ⟨fun l hl ↦ ?_, List.pairwise_map.2 ?_⟩
  · obtain ⟨m, hm, rfl⟩ := List.mem_map.1 hl
    exact (h.uncut m hm).trim
  · exact h.closed.imp fun hclosed ↦ by rwa [depthOver_trim]

/-! ## Tokens -/

theorem map_toList_tokens (text : String) :
    (tokens text).map String.toList = (segments 0 text.toList).map (trim isBlank) := by
  simp [tokens, Function.comp_def]

theorem tokens_ne_nil (text : String) : tokens text ≠ [] := by
  simp [tokens, segments_ne_nil]

theorem strip_of_mem_tokens {text token : String} (h : token ∈ tokens text) :
    strip token = token := by
  obtain ⟨segment, -, rfl⟩ := List.mem_map.1 h
  rw [strip_eq_self_iff, String.toList_ofList, trim_trim]

/-- Some of the tokens of a definition are found again where they were joined by colons. -/
theorem segments_intercalate_tokens {text : String} {ts : List String}
    (h : ts.Sublist (tokens text)) (hne : ts ≠ []) :
    segments 0 (":".intercalate ts).toList = ts.map String.toList := by
  have hsub : (ts.map String.toList).Sublist ((segments 0 text.toList).map (trim isBlank)) := by
    rw [← map_toList_tokens]
    exact h.map _
  rw [String.toList_intercalate]
  exact segments_intercalate ((areSegments_segments _).map_trim.sublist hsub) (by simpa using hne)

theorem tokens_intercalate {text : String} {ts : List String} (h : ts.Sublist (tokens text))
    (hne : ts ≠ []) : tokens (":".intercalate ts) = ts := by
  calc tokens (":".intercalate ts) = ts.map strip := by
        rw [tokens, segments_intercalate_tokens h hne, List.map_map]
        rfl
    _ = ts.map id := List.map_congr_left fun token htoken ↦ strip_of_mem_tokens (h.subset htoken)
    _ = ts := List.map_id ts

/-- Joined tokens have no blanks around them. -/
theorem strip_intercalate {text : String} {ts : List String} (h : ts.Sublist (tokens text)) :
    strip (":".intercalate ts) = ":".intercalate ts := by
  rw [strip_eq_self_iff, String.toList_intercalate]
  refine trim_intercalate (.inl (by decide)) fun l hl ↦ ?_
  obtain ⟨token, htoken, rfl⟩ := List.mem_map.1 hl
  exact strip_eq_self_iff.1 (strip_of_mem_tokens (h.subset htoken))

/-- Joined by colons, the tokens are the text again if there were no blanks around them. -/
theorem intercalate_tokens {text : String}
    (h : ∀ segment ∈ segments 0 text.toList, trim isBlank segment = segment) :
    ":".intercalate (tokens text) = text := by
  rw [← String.toList_inj, String.toList_intercalate, map_toList_tokens]
  calc [':'].intercalate ((segments 0 text.toList).map (trim isBlank))
      = [':'].intercalate (segments 0 text.toList) := by rw [List.map_congr_left h, List.map_id']
    _ = text.toList := intercalate_segments 0 text.toList

/-! ## Where a definition is cut -/

/-- The depth behind a text is the most by which an end of it opens more than it closes. -/
theorem depthOver_le_iff {d : ℕ} :
    depthOver 0 l ≤ d ↔ ∀ s, s <:+ l → s.count '(' ≤ s.count ')' + d := by
  induction l using List.reverseRecOn generalizing d with
  | nil => simp [depthOver]
  | append_singleton l c ih =>
    have hlast : depthOver 0 (l ++ [c]) = depthAfter (depthOver 0 l) c := depthOver_append 0 l [c]
    have hends : (∀ s, s <:+ l ++ [c] → s.count '(' ≤ s.count ')' + d) ↔
        ∀ s, s <:+ l → s.count '(' + [c].count '(' ≤ s.count ')' + [c].count ')' + d := by
      simp only [List.suffix_concat_iff, ← List.count_append]
      constructor
      · exact fun h s hs ↦ h (s ++ [c]) (.inr ⟨s, rfl, hs⟩)
      · rintro h s (rfl | ⟨s, rfl, hs⟩)
        · simp
        · exact h s hs
    rw [hlast, hends, depthAfter]
    by_cases hopen : c = '('
    · subst hopen
      cases d with
      | zero =>
        have hno : ¬∀ s, s <:+ l → s.count '(' + 1 ≤ s.count ')' :=
          fun h ↦ absurd (h [] List.nil_suffix) (by simp)
        simpa using hno
      | succ d =>
        simpa [← add_assoc] using ih (d := d)
    · by_cases hclose : c = ')'
      · subst hclose
        simpa [add_assoc, add_comm, add_left_comm] using ih (d := d + 1)
      · simpa [hopen, hclose] using ih (d := d)

/-- A joint between segments stands behind segments that are closed. -/
theorem depthOver_intercalate (h : ∀ l ∈ segs, depthOver 0 l = 0) :
    depthOver 0 ([':'].intercalate segs) = 0 := by
  induction segs with
  | nil => rfl
  | cons first rest ih =>
    rw [List.forall_mem_cons] at h
    cases rest with
    | nil => simpa using h.1
    | cons second more =>
      rw [List.intercalate_cons_cons, depthOver_append, depthOver_append, h.1]
      exact ih h.2

/-- The segments of a definition as texts. -/
def pieces (text : String) : List String := (segments 0 text.toList).map String.ofList

theorem pieces_ne_nil (text : String) : pieces text ≠ [] := by simp [pieces, segments_ne_nil]

theorem map_strip_pieces (text : String) : (pieces text).map strip = tokens text := by
  simp [pieces, tokens, strip]

theorem intercalate_pieces (text : String) : ":".intercalate (pieces text) = text := by
  apply String.toList_injective
  rw [String.toList_intercalate]
  simpa [pieces, Function.comp_def] using intercalate_segments 0 text.toList

theorem pieces_append_colon {s : String} (h : depthOver 0 s.toList = 0) (t : String) :
    pieces (s ++ ":" ++ t) = pieces s ++ pieces t := by
  have hlist : (s ++ ":" ++ t).toList = s.toList ++ ':' :: t.toList := by simp
  rw [pieces, hlist, segments_append_colon h, List.map_append, pieces, pieces]

theorem depthOver_of_append_eq_pieces {text : String} {before after : List String}
    (h : before ++ after = pieces text) (hne : after ≠ []) :
    depthOver 0 (":".intercalate before).toList = 0 := by
  rw [String.toList_intercalate]
  refine depthOver_intercalate (List.forall_mem_map.2 fun piece hpiece ↦ ?_)
  have hclosed : (pieces text).Pairwise fun piece _ ↦ depthOver 0 piece.toList = 0 := by
    simpa [pieces, List.pairwise_map] using (areSegments_segments text.toList).closed
  rw [← h, List.pairwise_append] at hclosed
  obtain ⟨last, hlast⟩ := List.exists_mem_of_ne_nil after hne
  exact hclosed.2.2 piece hpiece last hlast

/-- A definition is cut at the colons with no parenthesis open before them and nowhere else, and its
tokens are found again where they are joined by colons. -/
theorem tokens_cut (text : String) :
    (∃ segs : List String, ":".intercalate segs = text ∧ segs.map strip = tokens text ∧
      ∀ s t : String, text = s ++ ":" ++ t ∧ depthOver 0 s.toList = 0 ↔
        ∃ before after : List String, before ≠ [] ∧ after ≠ [] ∧ before ++ after = segs ∧
          s = ":".intercalate before ∧ t = ":".intercalate after) ∧
    (∀ l, depthOver 0 l = 0 ↔ ∀ s, s <:+ l → s.count '(' ≤ s.count ')') ∧
    tokens (":".intercalate (tokens text)) = tokens text := by
  refine ⟨⟨pieces text, intercalate_pieces text, map_strip_pieces text, fun s t ↦ ⟨?_, ?_⟩⟩,
    fun l ↦ ?_, tokens_intercalate (List.Sublist.refl _) (tokens_ne_nil text)⟩
  · rintro ⟨rfl, hclosed⟩
    exact ⟨pieces s, pieces t, pieces_ne_nil s, pieces_ne_nil t,
      (pieces_append_colon hclosed t).symm, (intercalate_pieces s).symm,
      (intercalate_pieces t).symm⟩
  · rintro ⟨before, after, hbefore, hafter, hpieces, rfl, rfl⟩
    refine ⟨?_, depthOver_of_append_eq_pieces hpieces hafter⟩
    rw [← String.intercalate_append_of_ne_nil hbefore hafter, hpieces, intercalate_pieces]
  · simpa using depthOver_le_iff (l := l) (d := 0)

/-- A closing parenthesis too many counts for nothing; an opening one too many keeps what follows
together. -/
example : tokens "enum(a:b)):min(1 : (2:3" = ["enum(a:b))", "min(1 : (2:3"] := by decide

end Scaffold.Field
