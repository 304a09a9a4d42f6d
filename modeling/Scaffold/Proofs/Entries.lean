import Mathlib
import Scaffold.Entries

/-!
# Entries under keys

Entries with different keys stay as they are. Of several with one key only the last can be looked
up, in the place of the first, so that nothing is lost exactly if entries with one key agree.
-/

namespace Scaffold.Entries

variable {α : Type} {entries more : List (String × α)} {key k : String} {value v : α}

/-! ## Keys -/

theorem mem_keys_put : k ∈ (put entries key value).map Prod.fst ↔
    k ∈ entries.map Prod.fst ∨ k = key := by
  rw [keys_put]
  split
  · rename_i hmem
    exact ⟨.inl, by rintro (h | rfl) <;> assumption⟩
  · simp

theorem nodup_keys_put (h : (entries.map Prod.fst).Nodup) :
    ((put entries key value).map Prod.fst).Nodup := by
  rw [keys_put]
  split
  · exact h
  · next hnew =>
    refine List.nodup_append.2 ⟨h, List.nodup_singleton _, fun a ha b hb heq ↦ ?_⟩
    obtain rfl := List.mem_singleton.1 hb
    exact hnew (heq ▸ ha)

theorem putAll_cons (entries : List (String × α)) (e : String × α) (rest : List (String × α)) :
    putAll entries (e :: rest) = putAll (put entries e.1 e.2) rest := rfl

theorem mem_keys_putAll : k ∈ (putAll entries more).map Prod.fst ↔
    k ∈ entries.map Prod.fst ∨ k ∈ more.map Prod.fst := by
  induction more generalizing entries with
  | nil => simp [putAll]
  | cons e rest ih => rw [putAll_cons, ih, mem_keys_put, List.map_cons, List.mem_cons, or_assoc]

/-- No key is lost and none is made up. -/
theorem mem_keys_ofList : k ∈ (ofList entries).map Prod.fst ↔ k ∈ entries.map Prod.fst := by
  rw [ofList, mem_keys_putAll, List.map_nil]
  simp

theorem nodup_keys_putAll (h : (entries.map Prod.fst).Nodup) :
    ((putAll entries more).map Prod.fst).Nodup := by
  induction more generalizing entries with
  | nil => exact h
  | cons e rest ih => exact ih (nodup_keys_put h)

theorem nodup_keys_ofList (entries : List (String × α)) :
    ((ofList entries).map Prod.fst).Nodup := nodup_keys_putAll List.nodup_nil

theorem ofList_concat (entries : List (String × α)) (e : String × α) :
    ofList (entries ++ [e]) = put (ofList entries) e.1 e.2 := by
  rw [ofList, putAll, List.foldl_append]
  rfl

/-- Keys stand where they come first. -/
theorem keys_ofList (entries : List (String × α)) :
    (ofList entries).map Prod.fst = (entries.map Prod.fst).eraseDups := by
  induction entries using List.reverseRecOn with
  | nil => rfl
  | append_singleton rest e ih =>
    rw [ofList_concat, keys_put, ih, List.map_append, List.eraseDups_append]
    simp only [List.mem_eraseDups]
    by_cases hmem : e.1 ∈ rest.map Prod.fst
    · simp [hmem, List.removeAll]
    · simp [hmem, List.removeAll, List.eraseDups_cons]

/-! ## Members -/

theorem mem_of_mem_put {e : String × α} (h : e ∈ put entries key value) :
    e ∈ entries ∨ e = (key, value) := by
  induction entries with
  | nil => exact .inr (List.mem_singleton.1 h)
  | cons first rest ih =>
    rw [put] at h
    split at h
    · next hkey =>
      rcases List.mem_cons.1 h with rfl | h
      · exact .inr (Prod.ext (beq_iff_eq.1 hkey) rfl)
      · exact .inl (List.mem_cons_of_mem _ h)
    · rcases List.mem_cons.1 h with rfl | h
      · exact .inl List.mem_cons_self
      · exact (ih h).imp_left (List.mem_cons_of_mem _)

theorem mem_of_mem_putAll {e : String × α} (h : e ∈ putAll entries more) :
    e ∈ entries ∨ e ∈ more := by
  induction more generalizing entries with
  | nil => exact .inl h
  | cons first rest ih =>
    rcases ih h with h | h
    · rcases mem_of_mem_put h with h | rfl
      · exact .inl h
      · exact .inr List.mem_cons_self
    · exact .inr (List.mem_cons_of_mem _ h)

/-- No entry is made up. -/
theorem mem_of_mem_ofList {e : String × α} (h : e ∈ ofList entries) : e ∈ entries :=
  (mem_of_mem_putAll h).resolve_left List.not_mem_nil

/-! ## Different keys -/

theorem put_of_not_mem (entries : List (String × α)) (value : α) (h : key ∉ entries.map Prod.fst) :
    put entries key value = entries ++ [(key, value)] := by
  induction entries with
  | nil => rfl
  | cons e rest ih =>
    rw [List.map_cons, List.mem_cons, not_or] at h
    have hne : (e.1 == key) = false := by simpa using fun k ↦ h.1 k.symm
    rw [put, hne, ih h.2]
    rfl

/-- New keys are put behind the old ones. -/
theorem putAll_of_disjoint (entries more : List (String × α)) (h : (more.map Prod.fst).Nodup)
    (hnew : ∀ k ∈ more.map Prod.fst, k ∉ entries.map Prod.fst) :
    putAll entries more = entries ++ more := by
  induction more generalizing entries with
  | nil => simp [putAll]
  | cons e rest ih =>
    rw [List.map_cons, List.nodup_cons] at h
    have hrest : ∀ k ∈ rest.map Prod.fst, k ∉ (entries ++ [e]).map Prod.fst := by
      intro k hk hmem
      rw [List.map_append, List.mem_append, List.map_cons, List.map_nil, List.mem_singleton] at hmem
      rcases hmem with hmem | rfl
      · exact hnew k (List.mem_cons_of_mem _ hk) hmem
      · exact h.1 hk
    rw [putAll_cons, put_of_not_mem _ _ (hnew e.1 (by simp)), ih _ h.2 hrest, List.append_assoc,
      List.singleton_append]

/-- Entries with different keys all stay in their places. -/
theorem ofList_of_nodup (entries : List (String × α)) (h : (entries.map Prod.fst).Nodup) :
    ofList entries = entries := by
  simpa [ofList] using putAll_of_disjoint [] entries h (by simp)

/-! ## Looking up -/

theorem get?_cons (e : String × α) (rest : List (String × α)) :
    get? (e :: rest) k = if k = e.1 then some e.2 else get? rest k := by
  obtain ⟨key, value⟩ := e
  rw [get?, List.lookup_cons]
  by_cases h : k = key
  · simp [h]
  · have h' : (k == key) = false := by simpa using h
    simp [h, h', get?]

theorem get?_put :
    get? (put entries key value) k = if k = key then some value else get? entries k := by
  induction entries with
  | nil => exact get?_cons _ _
  | cons e rest ih =>
    rw [put]
    split
    · next h =>
      have h : e.1 = key := by simpa using h
      rw [get?_cons, get?_cons, h]
      split <;> rfl
    · next h =>
      have h : e.1 ≠ key := by simpa using h
      rw [get?_cons, get?_cons, ih]
      by_cases hk : k = e.1
      · rw [if_pos hk, if_neg (hk ▸ h), if_pos hk]
      · rw [if_neg hk, if_neg hk]

/-- Of entries with one key the last one is found. -/
theorem get?_putAll :
    get? (putAll entries more) k = (get? more.reverse k).or (get? entries k) := by
  induction more generalizing entries with
  | nil => rfl
  | cons e rest ih =>
    have happend : get? (rest.reverse ++ [e]) k = (get? rest.reverse k).or (get? [e] k) :=
      List.lookup_append
    rw [putAll_cons, ih, get?_put, List.reverse_cons, happend, get?_cons, Option.or_assoc]
    split <;> rfl

theorem get?_ofList : get? (ofList entries) k = get? entries.reverse k := by
  rw [ofList, get?_putAll]
  exact Option.or_none

theorem mem_of_get? (h : get? entries k = some v) : (k, v) ∈ entries := by
  induction entries with
  | nil => cases h
  | cons e rest ih =>
    rw [get?_cons] at h
    split at h
    · next hk =>
      obtain rfl := Option.some.inj h
      exact hk ▸ List.mem_cons_self
    · exact List.mem_cons_of_mem _ (ih h)

theorem get?_of_mem (h : (entries.map Prod.fst).Nodup) {e : String × α} (he : e ∈ entries) :
    get? entries e.1 = some e.2 := by
  induction entries with
  | nil => cases he
  | cons first rest ih =>
    rw [List.map_cons, List.nodup_cons] at h
    rw [get?_cons]
    rcases List.mem_cons.1 he with rfl | he
    · simp
    · have hne : e.1 ≠ first.1 := fun heq ↦ h.1 (heq ▸ List.mem_map_of_mem he)
      rw [if_neg hne, ih h.2 he]

/-- Of the entries with one key the last one stays. -/
theorem exists_of_mem_ofList {e : String × α} (he : e ∈ ofList entries) :
    ∃ before after, entries = before ++ e :: after ∧ ∀ x ∈ after, x.1 ≠ e.1 := by
  have hlast : get? entries.reverse e.1 = some e.2 := by
    rw [← get?_ofList]
    exact get?_of_mem (nodup_keys_ofList entries) he
  rw [get?, List.lookup_eq_some_iff] at hlast
  obtain ⟨after, before, hsplit, hafter⟩ := hlast
  refine ⟨before.reverse, after.reverse, ?_, fun x hx ↦ ?_⟩
  · rw [← List.reverse_inj, hsplit]
    simp
  · simpa using fun heq : x.1 = e.1 ↦ by simpa [heq] using hafter x (List.mem_reverse.1 hx)

/-- All entries can be looked up exactly if those with one key agree. -/
theorem get?_ofList_eq_iff (entries : List (String × α)) :
    (∀ e ∈ entries, get? (ofList entries) e.1 = some e.2) ↔
      ∀ e ∈ entries, ∀ e' ∈ entries, e.1 = e'.1 → e.2 = e'.2 := by
  constructor
  · intro h e he e' he' hkey
    have hfound := h e he
    rw [hkey, h e' he'] at hfound
    exact (Option.some.inj hfound).symm
  · intro h e he
    obtain ⟨v, hv⟩ : ∃ v, get? entries.reverse e.1 = some v := by
      rw [get?, ← Option.isSome_iff_exists, List.lookup_isSome_iff]
      exact ⟨e, List.mem_reverse.2 he, by simp⟩
    have hmem : (e.1, v) ∈ entries := List.mem_reverse.1 (mem_of_get? hv)
    rw [get?_ofList, hv, h e he _ hmem rfl]

end Scaffold.Entries
