import Mathlib
import Scaffold.Text.Utf8

/-!
# Texts in files

A text that is read from a file has a line feed wherever the file has a carriage return, with or
without a line feed behind it. So a text comes back from a file as it was written exactly if it has
no carriage returns (`decodeLines_encode_eq`, `unified_eq_self_iff`).
-/

namespace Scaffold.Text

/-- The text as it is read from a file, with line feeds at the ends of all lines. -/
def unified (s : String) : String := String.ofList (unifyFeeds s.toList)

theorem cr_not_mem_unifyFeeds (l : List Char) : '\r' ∉ unifyFeeds l := by
  induction l using unifyFeeds.induct with
  | case1 => simp [unifyFeeds]
  | case2 rest ih => simp [unifyFeeds, ih]
  | case3 c rest hne ih =>
    rw [unifyFeeds]
    · by_cases hc : c = '\r'
      · simp [hc, ih]
      · simp [hc, Ne.symm hc, ih]
    · exact hne

theorem unifyFeeds_of_not_mem {s : List Char} (h : '\r' ∉ s) : unifyFeeds s = s := by
  induction s with
  | nil => rfl
  | cons c rest ih =>
    rw [List.mem_cons, not_or] at h
    have hc : (c == '\r') = false := by simpa using fun hc : c = '\r' ↦ h.1 hc.symm
    rw [unifyFeeds, ih h.2, hc]
    · rfl
    · intro _ hc'
      exact absurd hc'.symm h.1

/-- Only carriage returns make a text shorter. -/
theorem length_le_length_unifyFeeds (l : List Char) :
    l.length ≤ (unifyFeeds l).length + l.count '\r' := by
  induction l using unifyFeeds.induct with
  | case1 => simp
  | case2 rest ih =>
    have hfeed : ('\n' :: rest).count '\r' = rest.count '\r' := by simp
    rw [unifyFeeds]
    simp only [List.length_cons, List.count_cons_self, hfeed]
    omega
  | case3 c rest hne ih =>
    rw [unifyFeeds]
    · have := List.count_le_count_cons (a := '\r') (b := c) (l := rest)
      simp only [List.length_cons]
      omega
    · exact hne

theorem unified_eq_self_iff {s : String} : unified s = s ↔ '\r' ∉ s.toList := by
  rw [unified, ← String.toList_inj, String.toList_ofList]
  constructor
  · intro h
    rw [← h]
    exact cr_not_mem_unifyFeeds _
  · exact unifyFeeds_of_not_mem

/-! ## Bytes -/

theorem encode_append (s t : String) : encode (s ++ t) = encode s ++ encode t :=
  String.toByteArray_append

theorem encode_inj {s t : String} : encode s = encode t ↔ s = t := String.toByteArray_inj

theorem decode_encode (s : String) : decode (encode s) = .ok s := by
  have hvalid : s.toUTF8.IsValidUTF8 := s.isValidUTF8
  have hread : String.fromUTF8? s.toUTF8 = some s := by
    rw [String.fromUTF8?, dif_pos hvalid]
    rfl
  rw [decode, encode, hread]

theorem decodeLines_encode_eq (s : String) : decodeLines (encode s) = .ok (unified s) := by
  rw [decodeLines, decode_encode]
  rfl

/-- A text without carriage returns is read from a file as it was written. -/
theorem decodeLines_encode {s : String} (h : '\r' ∉ s.toList) :
    decodeLines (encode s) = .ok s := by
  rw [decodeLines_encode_eq, unified_eq_self_iff.2 h]

/-- A text that was read from a file has no carriage returns. -/
theorem cr_not_mem_of_decodeLines {content : ByteArray} {text : String}
    (h : decodeLines content = .ok text) : '\r' ∉ text.toList := by
  rw [decodeLines] at h
  rcases hs : decode content with e | s
  · rw [hs] at h
    cases h
  · rw [hs] at h
    obtain rfl := Except.ok.inj h
    rw [String.toList_ofList]
    exact cr_not_mem_unifyFeeds _

end Scaffold.Text
