import Scaffold.Proofs.Text.Feeds
import Scaffold.Value.Json.Printer
import Scaffold.Value.Json.Reader

/-!
# Reading what was written

Texts, truth values, null and mappings of them with different keys are written as JSON that is
read back as the same value, also when it goes through a file.
-/

namespace Scaffold

namespace Json

open Value

/-! ## Texts -/

theorem hexNumber?_of_control : ∀ n < 32,
    (List.replicate (4 - (Nat.toDigits 16 n).length) '0' ++ Nat.toDigits 16 n).length = 4 ∧
      hexNumber? (List.replicate (4 - (Nat.toDigits 16 n).length) '0' ++ Nat.toDigits 16 n) =
        some n := by
  decide

theorem escaped?_of_mem : ∀ e ∈ shortEscapes, e.2 ≠ 'u' ∧ escaped? e.2 = some e.1 := by
  decide

theorem exists_of_length_eq_four {α : Type} {l : List α} (h : l.length = 4) :
    ∃ a b c d, l = [a, b, c, d] := by
  rcases l with - | ⟨a, - | ⟨b, - | ⟨c, - | ⟨d, - | ⟨e, rest⟩⟩⟩⟩⟩ <;> simp at h
  exact ⟨a, b, c, d, rfl⟩

/-- Each character is read back from what is written for it. -/
theorem textFrom_jsonChar (opened : Nat) (c : Char) {rest : List Char} (hrest : rest ≠ []) :
    textFrom opened (jsonChar c ++ rest) =
      (textFrom opened rest).map fun found ↦ (c.toNat :: found.1, found.2) := by
  rw [jsonChar]
  rcases hc : shortEscapes.lookup c with - | letter
  · simp only
    split
    · next hcontrol =>
      obtain ⟨hlength, hnumber⟩ := hexNumber?_of_control c.toNat hcontrol
      obtain ⟨x, y, z, w, hdigits⟩ := exists_of_length_eq_four hlength
      rw [hdigits] at hnumber
      rw [List.cons_append, List.cons_append, List.cons_append, hdigits]
      obtain ⟨next, more, rfl⟩ := List.exists_cons_of_ne_nil hrest
      simp only [List.cons_append, List.nil_append]
      rw [textFrom]
      exact hnumber
    · next hplain =>
      rw [List.lookup_eq_none_iff] at hc
      have hquote : c ≠ '"' := by simpa using hc ('"', '"') (by decide)
      have hback : c ≠ '\\' := by simpa using hc ('\\', '\\') (by decide)
      rw [List.singleton_append, textFrom]
      · rw [if_neg (by simpa using hquote), if_neg hplain]
      · exact fun h ↦ absurd h hback
      · exact fun _ _ _ _ _ h ↦ absurd h hback
      · exact fun _ _ h ↦ absurd h hback
  · obtain ⟨before, after, hmem, -⟩ := List.lookup_eq_some_iff.1 hc
    obtain ⟨hu, hletter⟩ := escaped?_of_mem (c, letter) (by rw [hmem]; simp)
    rw [List.cons_append, List.singleton_append, textFrom]
    · rw [if_neg (by simpa using hu), hletter]
    · exact fun _ _ _ _ _ h ↦ absurd h hu

theorem textFrom_flatMap (opened : Nat) (s rest : List Char) :
    textFrom opened (s.flatMap jsonChar ++ '"' :: rest) = .ok (s.map Char.toNat, rest) := by
  induction s with
  | nil =>
    rw [List.flatMap_nil, List.nil_append, textFrom]
    · rfl
    all_goals simp
  | cons c s ih =>
    rw [List.flatMap_cons, List.append_assoc, textFrom_jsonChar _ _ (by simp), ih]
    rfl

/-- Characters are no surrogates. -/
theorem joinSurrogates_map_toNat (s : List Char) : joinSurrogates (s.map Char.toNat) = s := by
  induction s with
  | nil => rfl
  | cons c rest ih =>
    cases rest with
    | nil => simp [joinSurrogates]
    | cons x more =>
      have hc : ¬(0xD800 ≤ c.toNat ∧ c.toNat < 0xDC00) := by
        rcases c.valid with h | ⟨h, -⟩
        · have : c.toNat < 0xD800 := h
          omega
        · have : 0xDFFF < c.toNat := h
          omega
      rw [List.map_cons, List.map_cons, joinSurrogates, ← List.map_cons, ih, if_neg]
      · rw [Char.ofNat_toNat]
      · simp only [Bool.and_eq_true, decide_eq_true_eq]
        exact fun h ↦ hc h.1.1

theorem toList_jsonText (s : String) :
    (jsonText s).toList = '"' :: (s.toList.flatMap jsonChar ++ ['"']) := by
  simp [jsonText]

/-- A text is read back up to its closing quote. -/
theorem text_flatMap (s : String) (rest : List Char) :
    text (s.toList.flatMap jsonChar ++ '"' :: rest) = .ok (s, rest) := by
  rw [text, textFrom_flatMap, Except.map]
  simp only [joinSurrogates_map_toNat, String.ofList_toList]

/-! ## Values -/

/-- A value that is written with at most `n` brackets open: a text, a truth value, null, or a
mapping of such values with different texts as keys. -/
def Written : Nat → Value → Prop
  | _, .null | _, .bool _ | _, .text _ => True
  | n + 1, .map entries => ∃ pairs : List (String × Value),
      entries = pairs.map (fun e ↦ (.text e.1, e.2)) ∧ (pairs.map Prod.fst).Nodup ∧
        ∀ e ∈ pairs, Written n e.2
  | _, _ => False

theorem Written.of_zero {v : Value} (h : Written 0 v) (n : Nat) : Written n v := by
  cases v with
  | null | bool | text => cases n <;> trivial
  | int | float | stamp | list | map => exact h.elim

theorem putEntry_of_not_mem {pairs : List (String × Value)} {key : String} (v : Value)
    (h : key ∉ pairs.map Prod.fst) :
    putEntry (pairs.map fun e ↦ (.text e.1, e.2)) (.text key) v =
      (pairs ++ [(key, v)]).map fun e ↦ (.text e.1, e.2) := by
  induction pairs with
  | nil => rfl
  | cons e rest ih =>
    simp only [List.map_cons, List.mem_cons, not_or] at h
    have hkey : sameKey (.text e.1) (.text key) = false := by
      simpa [sameKey] using fun hk : e.1 = key ↦ h.1 hk.symm
    rw [List.map_cons, putEntry, hkey]
    simp [ih h.2]

theorem ofEntries_of_nodup {pairs : List (String × Value)} (h : (pairs.map Prod.fst).Nodup) :
    ofEntries (pairs.map fun e ↦ (.text e.1, e.2)) = pairs.map fun e ↦ (.text e.1, e.2) := by
  induction pairs using List.reverseRecOn with
  | nil => rfl
  | append_singleton pairs e ih =>
    rw [List.map_append, List.nodup_append] at h
    have hkey : e.1 ∉ pairs.map Prod.fst := fun hmem ↦ h.2.2 _ hmem _ (by simp) rfl
    have := ih h.1
    rw [ofEntries] at this ⊢
    rw [List.map_append, List.foldl_append, this]
    exact (putEntry_of_not_mem e.2 hkey).trans (by simp)

/-! ## Spaces -/

theorem skipSpace_of_space {blank : List Char} (hblank : ∀ c ∈ blank, isSpace c = true) {c : Char}
    (hc : isSpace c = false) (rest : List Char) :
    skipSpace (blank ++ c :: rest) = c :: rest := by
  rw [skipSpace, List.dropWhile_append_of_pos hblank, List.dropWhile_cons, hc]
  rfl

theorem skipSpace_cons {c : Char} (hc : isSpace c = false) (rest : List Char) :
    skipSpace (c :: rest) = c :: rest := by
  rw [skipSpace, List.dropWhile_cons, hc]
  rfl

/-- A line feed and the spaces of the next line. -/
def newline (level : Nat) : List Char := '\n' :: List.replicate (2 * level) ' '

theorem isSpace_of_mem_newline {level : Nat} : ∀ c ∈ newline level, isSpace c = true := by
  intro c hc
  rcases List.mem_cons.1 hc with rfl | hc
  · decide
  · rw [List.eq_of_mem_replicate hc]
    decide

/-! ## Mappings -/

/-- What is written for the entries of a mapping. -/
def written (level : Nat) : List (String × Value) → List Char
  | [] => []
  | [e] => (jsonText e.1).toList ++ ':' :: ' ' :: (jsonAt level e.2).toList
  | e :: rest => (jsonText e.1).toList ++ ':' :: ' ' :: (jsonAt level e.2).toList ++
      ',' :: newline level ++ written level rest

theorem toList_jsonAt_map (level : Nat) {pairs : List (String × Value)} (h : pairs ≠ []) :
    (jsonAt level (.map (pairs.map fun e ↦ (.text e.1, e.2)))).toList =
      '\x7b' :: newline (level + 1) ++ written (level + 1) pairs ++ newline level ++ ['\x7d'] := by
  have hentries (pairs : List (String × Value)) :
      jsonEntries (level + 1) (pairs.map fun e ↦ (.text e.1, e.2)) =
        pairs.map fun e ↦ jsonText e.1 ++ ": " ++ jsonAt (level + 1) e.2 := by
    induction pairs with
    | nil => rfl
    | cons e rest ih => simp [jsonEntries, ih, jsonKey]
  have hjoin : (("," ++ ("\n" ++ Text.spaces (2 * (level + 1)))).intercalate
      (pairs.map fun e ↦ jsonText e.1 ++ ": " ++ jsonAt (level + 1) e.2)).toList =
        written (level + 1) pairs := by
    clear hentries h
    induction pairs with
    | nil => rfl
    | cons e rest ih =>
      cases rest with
      | nil => simp [written]
      | cons next more =>
        rw [List.map_cons, List.map_cons, String.intercalate_cons_cons, written, ← ih]
        · simp [newline, Text.spaces]
        · simp
  rw [jsonAt, hentries, jsonBlock, if_neg (by simpa using h)]
  simp only [String.toList_append, hjoin]
  simp [newline, Text.spaces]

/-- No value is written with a space or a mark in front. -/
theorem exists_cons_jsonAt {n : Nat} {v : Value} (hv : Written n v) (level : Nat) :
    ∃ c rest, (jsonAt level v).toList = c :: rest ∧ isSpace c = false ∧ c.toNat < 0x80 := by
  cases v with
  | null => exact ⟨'n', "ull".toList, by rw [jsonAt]; decide, by decide, by decide⟩
  | bool b =>
    cases b
    · exact ⟨'f', "alse".toList, by rw [jsonAt]; decide, by decide, by decide⟩
    · exact ⟨'t', "rue".toList, by rw [jsonAt]; decide, by decide, by decide⟩
  | text s => exact ⟨'"', _, by rw [jsonAt, toList_jsonText], by decide, by decide⟩
  | map es =>
    cases n with
    | zero => exact hv.elim
    | succ n =>
      obtain ⟨pairs, rfl, -, -⟩ := hv
      rcases eq_or_ne pairs [] with rfl | hne
      · exact ⟨'\x7b', ['\x7d'], by simp [jsonAt, jsonEntries, jsonBlock], by decide, by decide⟩
      · exact ⟨'\x7b', _, by rw [toList_jsonAt_map _ hne]; rfl, by decide, by decide⟩
  | int | float | stamp | list => cases n <;> exact hv.elim

theorem written_eq (level : Nat) (e : String × Value) (rest : List (String × Value)) :
    written level (e :: rest) = '"' :: (e.1.toList.flatMap jsonChar ++
      '"' :: ':' :: ' ' :: ((jsonAt level e.2).toList ++
        if rest = [] then [] else ',' :: newline level ++ written level rest)) := by
  cases rest <;> simp [written, toList_jsonText]

/-- The entries of a mapping are read back, if their values are. -/
theorem entries_written {n level depth : Nat} {pairs : List (String × Value)} (hne : pairs ≠ [])
    (hpairs : ∀ e ∈ pairs, Written n e.2)
    (hvalue : ∀ e ∈ pairs, ∀ (fuel : Nat) (rest : List Char),
      (jsonAt level e.2).toList.length ≤ fuel →
        value depth fuel ((jsonAt level e.2).toList ++ rest) = .ok (e.2, rest))
    {fuel : Nat} (hfuel : (written level pairs).length ≤ fuel) (rest : List Char) :
    entries depth fuel (written level pairs ++ newline (level - 1) ++ '\x7d' :: rest) =
      .ok (pairs.map fun e ↦ (.text e.1, e.2), rest) := by
  induction pairs generalizing fuel with
  | nil => exact absurd rfl hne
  | cons e more ih =>
    obtain ⟨c, cs, hcs, hc, -⟩ := exists_cons_jsonAt (hpairs e (by simp)) level
    have hvalue' := hvalue e (by simp)
    rw [written_eq] at hfuel ⊢
    simp only [List.length_cons, List.length_append] at hfuel
    obtain ⟨fuel, rfl⟩ : ∃ f, fuel = f + 1 := ⟨fuel - 1, by omega⟩
    have hblank : ∀ x ∈ [' '], isSpace x = true := by simp [isSpace]
    have hskip (tail : List Char) : skipSpace (' ' :: ((jsonAt level e.2).toList ++ tail)) =
        (jsonAt level e.2).toList ++ tail := by
      rw [hcs]
      exact skipSpace_of_space hblank hc (cs ++ tail)
    have hcolon (tail : List Char) : skipSpace (':' :: tail) = ':' :: tail :=
      skipSpace_cons (by decide) tail
    have hcomma (tail : List Char) : skipSpace (',' :: tail) = ',' :: tail :=
      skipSpace_cons (by decide) tail
    have hclose : skipSpace (newline (level - 1) ++ '\x7d' :: rest) = '\x7d' :: rest :=
      skipSpace_of_space isSpace_of_mem_newline (by decide) rest
    simp only [List.cons_append, List.append_assoc, entries, text_flatMap, hcolon, hskip]
    rcases eq_or_ne more [] with rfl | hmore
    · rw [if_pos rfl, hvalue' fuel _ (by omega), List.nil_append]
      simp [hclose]
    · rw [if_neg hmore] at hfuel ⊢
      simp only [List.length_cons, List.length_append] at hfuel
      obtain ⟨next, tail, rfl⟩ := List.exists_cons_of_ne_nil hmore
      have hline : skipSpace (newline level ++ (written level (next :: tail) ++
          (newline (level - 1) ++ '\x7d' :: rest))) =
          written level (next :: tail) ++ (newline (level - 1) ++ '\x7d' :: rest) := by
        rw [written_eq]
        exact skipSpace_of_space isSpace_of_mem_newline (by decide) _
      have hrest := @ih hmore (fun e he ↦ hpairs e (by simp [he]))
        (fun e he ↦ hvalue e (by simp [he])) fuel (by omega)
      rw [List.append_assoc] at hrest
      rw [hvalue' fuel _ (by omega)]
      simp only [List.cons_append, List.append_assoc, hcomma, hline, hrest, Except.map]
      rfl

/-- A value without brackets is read back. -/
theorem value_jsonAt_of_scalar {v : Value} (hv : Written 0 v) (level depth fuel : Nat)
    (rest : List Char) : value depth (fuel + 1) ((jsonAt level v).toList ++ rest) = .ok (v, rest) := by
  have hnull : "null".length = 4 := by decide
  have htrue : "true".length = 4 := by decide
  have hfalse : "false".length = 5 := by decide
  cases v with
  | null => simp [jsonAt, value, word?, words, hnull]
  | bool b => cases b <;> simp [jsonAt, value, word?, words, htrue, hfalse]
  | text s =>
    rw [jsonAt, toList_jsonText]
    simp [value, text_flatMap, Except.map]
  | int | float | stamp | list | map => exact hv.elim

/-- A value is read back from what is written for it, whatever follows. -/
theorem value_jsonAt {n : Nat} {v : Value} (hv : Written n v) (level : Nat) {depth fuel : Nat}
    (hdepth : depth + n ≤ deepest) (hfuel : (jsonAt level v).toList.length ≤ fuel)
    (rest : List Char) : value depth fuel ((jsonAt level v).toList ++ rest) = .ok (v, rest) := by
  induction n generalizing v level depth fuel rest with
  | zero =>
    obtain ⟨c, cs, hcs, -, -⟩ := exists_cons_jsonAt hv level
    obtain ⟨fuel, rfl⟩ : ∃ f, fuel = f + 1 := ⟨fuel - 1, by
      rw [hcs, List.length_cons] at hfuel
      omega⟩
    exact value_jsonAt_of_scalar hv level depth fuel rest
  | succ n ih =>
    obtain ⟨c, cs, hcs, -, -⟩ := exists_cons_jsonAt hv level
    obtain ⟨fuel, rfl⟩ : ∃ f, fuel = f + 1 := ⟨fuel - 1, by
      rw [hcs, List.length_cons] at hfuel
      omega⟩
    cases v with
    | map es =>
      obtain ⟨pairs, rfl, hnodup, hpairs⟩ := hv
      have hshallow : ¬deepest ≤ depth := by omega
      rcases eq_or_ne pairs [] with rfl | hne
      · simp [jsonAt, jsonEntries, jsonBlock, value, hshallow, skipSpace, isSpace]
      · rw [toList_jsonAt_map _ hne] at hfuel ⊢
        simp only [List.length_cons, List.length_append] at hfuel
        have hentries := @entries_written n (level + 1) (depth + 1) pairs hne hpairs
          (fun e he f r hf ↦ ih (hpairs e he) (level + 1) (by omega) hf r) fuel (by omega) rest
        obtain ⟨e, more, rfl⟩ := List.exists_cons_of_ne_nil hne
        have hline : skipSpace (newline (level + 1) ++ (written (level + 1) (e :: more) ++
            (newline level ++ '\x7d' :: rest))) =
            written (level + 1) (e :: more) ++ (newline level ++ '\x7d' :: rest) := by
          rw [written_eq]
          exact skipSpace_of_space isSpace_of_mem_newline (by decide) _
        rw [List.append_assoc, Nat.add_sub_cancel] at hentries
        simp only [List.cons_append, List.append_assoc, List.nil_append, value, hshallow, if_false,
          hline]
        rw [written_eq] at hentries ⊢
        simp only [List.cons_append] at hentries ⊢
        change Except.map _ (entries (depth + 1) fuel ('"' :: _)) = _
        rw [hentries, Except.map]
        simp only [ofEntries_of_nodup hnodup]
    | null | bool | text => exact value_jsonAt_of_scalar (by trivial) level depth fuel rest
    | int | float | stamp | list => exact hv.elim

/-- What is written as JSON is read back. -/
theorem ofJson_json {n : Nat} {v : Value} (hv : Written n v) (hn : n ≤ deepest) :
    Value.ofJson v.json = .ok v := by
  obtain ⟨c, cs, hcs, hc, hascii⟩ := exists_cons_jsonAt hv 0
  have hread : value 0 ((jsonAt 0 v).toList.length + 1) ((jsonAt 0 v).toList ++ []) = .ok (v, []) :=
    value_jsonAt hv 0 (by omega) (Nat.le_succ _) []
  have hbom : (jsonAt 0 v).toList.head? ≠ some (Char.ofNat 0xFEFF) := by
    rw [hcs, List.head?_cons, ne_eq, Option.some.injEq]
    rintro rfl
    revert hascii
    decide
  have hwhole : whole (jsonAt 0 v).toList = .ok v := by
    rw [whole, if_neg (by simpa using hbom)]
    have hskip : skipSpace (jsonAt 0 v).toList = (jsonAt 0 v).toList := by
      rw [hcs, skipSpace_cons hc]
    rw [List.append_nil] at hread
    rw [hskip, hread]
    rfl
  rw [Value.ofJson, json, hwhole]
  rfl

/-! ## Line ends -/

theorem cr_not_mem_control : ∀ n < 32, '\r' ∉
    '\\' :: 'u' :: List.replicate (4 - (Nat.toDigits 16 n).length) '0' ++ Nat.toDigits 16 n := by
  decide

theorem cr_not_mem_jsonChar (c : Char) : '\r' ∉ jsonChar c := by
  rw [jsonChar]
  rcases hc : shortEscapes.lookup c with - | letter
  · simp only
    split
    · next hcontrol => exact cr_not_mem_control c.toNat hcontrol
    · rw [List.lookup_eq_none_iff] at hc
      have hreturn : c ≠ '\r' := by simpa using hc ('\r', 'r') (by decide)
      simpa using hreturn.symm
  · obtain ⟨before, after, hmem, -⟩ := List.lookup_eq_some_iff.1 hc
    have hletter : ∀ e ∈ shortEscapes, '\r' ∉ ['\\', e.2] := by decide
    exact hletter (c, letter) (by rw [hmem]; simp)

theorem cr_not_mem_jsonText (s : String) : '\r' ∉ (jsonText s).toList := by
  simp [toList_jsonText, cr_not_mem_jsonChar]

theorem cr_not_mem_newline (level : Nat) : '\r' ∉ newline level := by
  simp [newline]

/-- Carriage returns are only written as escapes. -/
theorem cr_not_mem_jsonAt {n : Nat} {v : Value} (hv : Written n v) (level : Nat) :
    '\r' ∉ (jsonAt level v).toList := by
  induction n generalizing v level with
  | zero =>
    cases v with
    | null => simp [jsonAt]
    | bool b => cases b <;> simp [jsonAt]
    | text s => simpa [jsonAt] using cr_not_mem_jsonText s
    | int | float | stamp | list | map => exact hv.elim
  | succ n ih =>
    cases v with
    | null => simp [jsonAt]
    | bool b => cases b <;> simp [jsonAt]
    | text s => simpa [jsonAt] using cr_not_mem_jsonText s
    | map es =>
      obtain ⟨pairs, rfl, -, hpairs⟩ := hv
      rcases eq_or_ne pairs [] with rfl | hne
      · simp [jsonAt, jsonEntries, jsonBlock]
      · have hwritten : '\r' ∉ written (level + 1) pairs := by
          clear hne
          induction pairs with
          | nil => simp [written]
          | cons e more ihpairs =>
            have hmore := ihpairs fun e he ↦ hpairs e (by simp [he])
            have he := ih (hpairs e (by simp)) (level + 1)
            rw [written_eq]
            split <;> simp [he, hmore, cr_not_mem_jsonChar, cr_not_mem_newline]
        rw [toList_jsonAt_map _ hne]
        simp [hwritten, cr_not_mem_newline]
    | int | float | stamp | list => exact hv.elim

/-- What is written as JSON into a file is read back from it. -/
theorem decodeLines_json {n : Nat} {v : Value} (hv : Written n v) :
    Text.decodeLines (Text.encode v.json) = .ok v.json :=
  Text.decodeLines_encode (cr_not_mem_jsonAt hv 0)

end Json

end Scaffold
