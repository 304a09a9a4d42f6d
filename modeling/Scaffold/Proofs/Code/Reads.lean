import Mathlib
import Scaffold.Proofs.Code.Scope

/-!
# Reading items of arrays

A line that mentions the variable of an array may read one of its items or ask whether the array has it
(`Stmt.ReadsKey`), or do something else with it. The code for a nested request does nothing with the array
of payloads that it gets but read its own payload (`onlyReads_code`).
-/

namespace Scaffold

namespace Stmt

variable {x key : String} {keys : List String} {code : List Stmt}

/-- The line reads an item of the array that the variable holds, or asks if the array has it, and does
not mention the variable elsewhere. -/
def ReadsKey (x key line : String) : Prop :=
  ∃ before after, x ∉ mentions before ∧ x ∉ mentions after ∧
    (line = before ++ s!"{x}['{key}']" ++ after ∨
      line = before ++ s!"array_key_exists('{key}', {x})" ++ after)

/-- Whatever mentions the variable in the code, reads one of the items of the array. -/
def OnlyReads (x : String) (keys : List String) (code : List Stmt) : Prop :=
  ∀ line ∈ allLines code, x ∈ mentions line → ∃ key ∈ keys, ReadsKey x key line

theorem OnlyReads.mono {keys' : List String} (h : OnlyReads x keys code) (hkeys : keys ⊆ keys') :
    OnlyReads x keys' code := fun line hline hx ↦ by
  obtain ⟨key, hkey, hread⟩ := h line hline hx
  exact ⟨key, hkeys hkey, hread⟩

theorem onlyReads_of_not_mem (h : x ∉ allMentions code) : OnlyReads x keys code :=
  fun _ hline hx ↦ absurd (List.mem_flatMap_of_mem hline hx) h

theorem onlyReads_append {more : List Stmt} :
    OnlyReads x keys (code ++ more) ↔ OnlyReads x keys code ∧ OnlyReads x keys more := by
  simp only [OnlyReads, allLines_append, List.mem_append, or_imp, forall_and]

theorem onlyReads_cons {s : Stmt} : OnlyReads x keys (s :: code) ↔
    OnlyReads x keys [s] ∧ OnlyReads x keys code := by
  rw [← onlyReads_append, List.singleton_append]

theorem onlyReads_line {line : String} (h : ReadsKey x key line) : OnlyReads x [key] [.line line] := by
  intro l hl _
  have hl : l = line := by simpa [allLines, lines] using hl
  exact ⟨key, List.mem_singleton_self key, hl ▸ h⟩

/-- The statement, unless it is a blank line. -/
def solid : Stmt → List Stmt
  | gap => []
  | s => [s]

theorem onlyReads_iff : OnlyReads x keys code ↔ ∀ s ∈ code.flatMap solid, OnlyReads x keys [s] := by
  have hgap : OnlyReads x keys [gap] := onlyReads_of_not_mem (by simp [allMentions_gap])
  have hone (s : Stmt) : OnlyReads x keys [s] ↔ ∀ t ∈ solid s, OnlyReads x keys [t] := by
    cases s <;> simp [solid, hgap]
  induction code with
  | nil => simp [OnlyReads, allLines]
  | cons s rest ih =>
    rw [onlyReads_cons, List.flatMap_cons, List.forall_mem_append]
    exact and_congr (hone s) ih

/-- Blank lines do not count. -/
theorem onlyReads_congr {code' : List Stmt} (h : code.flatMap solid = code'.flatMap solid) :
    OnlyReads x keys code ↔ OnlyReads x keys code' := by
  rw [onlyReads_iff, h, ← onlyReads_iff]

theorem onlyReads_spaced {groups : List (List Stmt)} :
    OnlyReads x keys (spaced groups) ↔ ∀ group ∈ groups, OnlyReads x keys group := by
  rw [onlyReads_iff, flatMap_spaced solid rfl, List.forall_mem_flatMap]
  exact forall₂_congr fun _ _ ↦ onlyReads_iff.symm

theorem ReadsKey.indented {line : String} (h : ReadsKey x key line) (width : Nat) :
    ReadsKey x key (Text.spaces width ++ line) := by
  obtain ⟨before, after, hbefore, hafter, hline⟩ := h
  refine ⟨Text.spaces width ++ before, after, ?_, hafter, ?_⟩
  · rwa [mentions, String.toList_append, (mute_spaces width).mentionedIn]
  · simp only [String.append_assoc] at hline ⊢
    exact hline.imp (congrArg _) (congrArg _)

theorem onlyReads_braces {head : String} {body : List Stmt}
    (hhead : ReadsKey x key (head ++ " \x7b"))
    (hbody : OnlyReads x [key] body) : OnlyReads x [key] [braces head body] := by
  intro line hline hx
  have hclose : x ∉ mentions "\x7d" := by simp [mentions, mentionedIn]
  simp only [braces, allLines, lines, Text.indentBy, List.append_nil, List.mem_append, List.mem_cons,
    List.mem_map, List.not_mem_nil, or_false] at hline
  rcases hline with (rfl | ⟨line, hline, rfl⟩) | rfl
  · exact ⟨key, List.mem_singleton_self key, hhead⟩
  · split at hx
    · next hblank =>
      rw [if_pos hblank]
      exact hbody line hline hx
    · next hblank =>
      rw [if_neg hblank]
      rw [mentions, String.toList_append, (mute_spaces 4).mentionedIn] at hx
      obtain ⟨key', hkey, hread⟩ := hbody line hline hx
      exact ⟨key', hkey, hread.indented 4⟩
  · exact absurd hx hclose

end Stmt

namespace Code

open Stmt

variable {c : Configuration} {w : Writer} {branch above : List NestedRelation} {n : NestedRelation}
  {x : String}

/-! ## Code that reads payloads -/

theorem onlyReads_syncCode {verb parent : String} {r : Relation} (hverb : Mute verb)
    (hparent : IsVariable parent) (hname : Mute r.name) (hx : x ≠ parent) :
    OnlyReads x [r.requestKey] (syncCode verb parent x r) := by
  have hcomment : x ∉ mentions s!"// {verb} {r.name}" := by
    simp [mentions, toString, hverb.mentionedIn, hname.mentionedIn_self, mentionedIn]
  have hhead : ReadsKey x r.requestKey (s!"if (array_key_exists('{r.requestKey}', {x}))" ++ " \x7b") :=
    ⟨"if (", ") \x7b", by simp [mentions, mentionedIn], by simp [mentions, mentionedIn],
      .inr (by simp [← String.toList_inj, toString])⟩
  have hline : ReadsKey x r.requestKey s!"{parent}->{r.name}()->sync({x}['{r.requestKey}'] ?? []);" := by
    refine ⟨s!"{parent}->{r.name}()->sync(", " ?? []);", ?_, by simp [mentions, mentionedIn],
      .inl (by simp [← String.toList_inj, toString])⟩
    simpa [mentions, toString, hparent.leadsFrom.mentionedIn, hname.mentionedIn, mentionedIn, isNameChar]
      using hx
  rw [syncCode, onlyReads_cons]
  exact ⟨onlyReads_of_not_mem (by rwa [allMentions_line]), onlyReads_braces hhead (onlyReads_line hline)⟩

theorem onlyReads_splitCode {key nested data : String} {keys more : List String}
    (hnested : IsVariable nested) (hdata : IsVariable data) (hkeys : ∀ key ∈ keys ++ more, Mute key)
    (hxnested : x ≠ nested) (hxdata : x ≠ data) :
    OnlyReads x [key] (splitCode s!"{x}['{key}']" keys nested data more) := by
  have htaken := mute_quotedList fun key hkey ↦ hkeys key (List.mem_append_left _ hkey)
  have hleft := mute_quotedList hkeys
  rw [splitCode, onlyReads_append]
  refine ⟨?_, ?_⟩
  · split
    · exact onlyReads_of_not_mem (by simp)
    · refine onlyReads_line ⟨s!"{nested} = Arr::only(", s!", {Text.quotedList keys});", ?_, ?_,
        .inl (by simp [← String.toList_inj, toString])⟩
      · simpa [mentions, toString, hnested.leadsFrom.mentionedIn, mentionedIn, isNameChar] using hxnested
      · simp [mentions, toString, htaken.mentionedIn, mentionedIn]
  · split
    · refine onlyReads_line ⟨s!"{data} = ", ";", ?_, by simp [mentions, mentionedIn],
        .inl (by simp [toString])⟩
      simpa [mentions, toString, hdata.leadsFrom.mentionedIn, mentionedIn, isNameChar] using hxdata
    · refine onlyReads_line ⟨s!"{data} = Arr::except(", s!", {Text.quotedList (keys ++ more)});", ?_, ?_,
        .inl (by simp [← String.toList_inj, toString])⟩
      · simpa [mentions, toString, hdata.leadsFrom.mentionedIn, mentionedIn, isNameChar] using hxdata
      · simp [mentions, toString, hleft.mentionedIn, mentionedIn]

theorem readsKey_opening (h : ¬OfLevel (levelName (n :: above)) (nestedVariable above)) :
    ReadsKey (nestedVariable above) n.relation.requestKey (opening n above ++ " \x7b") := by
  have hitem := Role.item.isVariable (isName_levelName (n :: above))
  have hne : nestedVariable above ≠ Role.item.variableOf (levelName (n :: above)) :=
    fun heq ↦ h (heq ▸ Role.item.ofLevel _)
  rw [opening]
  split
  · refine ⟨"foreach (", s!" ?? [] as {Role.item.variableOf (levelName (n :: above))}) \x7b",
      by simp [mentions, mentionedIn], ?_, .inl (by simp [← String.toList_inj, toString])⟩
    simpa [mentions, toString, hitem.leadsFrom.mentionedIn, mentionedIn, isNameChar] using hne
  · exact ⟨"if (!empty(", ")) \x7b", by simp [mentions, mentionedIn], by simp [mentions, mentionedIn],
      .inl (by simp [← String.toList_inj, toString])⟩

/-- The code for a request does nothing with the payloads of the level above but read its own. -/
theorem onlyReads_code (h : Branch c.nested (n :: above)) (hc : c.Mute)
    (hparent : nestedVariable above ≠ w.record c above)
    (hlevel : n.relation.kind ≠ .belongsToMany →
      ¬OfLevel (levelName (n :: above)) (nestedVariable above)) :
    OnlyReads (nestedVariable above) [n.relation.requestKey] (w.code c (n :: above)) := by
  have hname := (hc.nodes n h.within).name
  have hrecord := w.isVariable_record c above
  by_cases hkind : n.relation.kind = .belongsToMany
  · rw [Writer.code_cons]
    cases w with
    | store =>
      rw [Writer.node, storeNode_of_belongsToMany hkind]
      exact onlyReads_syncCode (by decide) hrecord hname hparent
    | update =>
      rw [Writer.node, updateNode_of_belongsToMany hkind]
      exact onlyReads_syncCode (by decide) hrecord hname hparent
  · replace hlevel := hlevel hkind
    have hne {v : String} (hv : v = w.record c above ∨ OfLevel (levelName (n :: above)) v) :
        v ≠ nestedVariable above := by
      rintro rfl
      exact hv.elim hparent hlevel
    have hsplit : OnlyReads (nestedVariable above) [n.relation.requestKey] (w.split c (n :: above)) := by
      by_cases hmany : n.relation.kind = .hasMany
      · refine onlyReads_of_not_mem fun hv ↦ ?_
        exact (Writer.mem_mentions_split hv).elim (fun hv ↦ hv.2 hmany) hlevel
      · rw [Writer.split, levelPayload, if_neg hmany]
        exact onlyReads_splitCode (isVariable_nestedVariable _) (isVariable_dataVariable _)
          (Writer.mute_of_mem_keys w c (n :: above)) (hne (.inr (Role.nested.ofLevel _))).symm
          (hne (.inr (Role.data.ofLevel _))).symm
    have hafter : nestedVariable above ∉ allMentions (w.afterSplit c (n :: above)) := fun hv ↦ by
      refine hne (Writer.mem_mentions_afterSplit (.nested h hkind) hc (fun child hchild v hv ↦ ?_) hv) rfl
      exact Writer.ofLevel_of_handed (Writer.mem_mentions_code (h.deeper hkind hchild) hc hv)
    have hblock : OnlyReads (nestedVariable above) [n.relation.requestKey]
        [braces (opening n above) (w.levelCode c (n :: above))] := by
      refine onlyReads_braces (readsKey_opening hlevel) ?_
      have hlines : (w.levelCode c (n :: above)).flatMap solid =
          (w.split c (n :: above) ++ w.afterSplit c (n :: above)).flatMap solid := by
        rw [flatMap_levelCode_cons solid rfl, List.flatMap_append]
      rw [onlyReads_congr hlines, onlyReads_append]
      exact ⟨hsplit, onlyReads_of_not_mem hafter⟩
    have hcomment {start : String} (hstart : Mute start) :
        OnlyReads (nestedVariable above) [n.relation.requestKey] [.line (start ++ n.relation.name)] :=
      onlyReads_of_not_mem (by simp [allMentions_line_of_mute hstart hname])
    cases w with
    | store =>
      rw [storeCode_eq hkind, onlyReads_cons]
      exact ⟨hcomment (show Mute "// Create " by decide), hblock⟩
    | update =>
      by_cases hmany : n.relation.kind = .hasMany
      · rw [updateCode_of_hasMany hmany, onlyReads_cons]
        refine ⟨hcomment (show Mute "// Sync " by decide), onlyReads_braces ?_ ?_⟩
        · exact ⟨"if (", ") \x7b", by simp [mentions, mentionedIn], by simp [mentions, mentionedIn],
            .inr (by simp [← String.toList_inj, toString])⟩
        · simp only [onlyReads_spaced, List.forall_mem_cons, List.not_mem_nil, false_implies,
            implies_true, and_true]
          refine ⟨onlyReads_of_not_mem ?_, hblock, onlyReads_of_not_mem fun hv ↦ ?_⟩
          · have hkeep := Role.keep.isVariable (isName_levelName (n :: above))
            have := hne (.inr (Role.keep.ofLevel _))
            simpa [mentions, toString, hkeep.leadsFrom.mentionedIn, mentionedIn, isNameChar] using this.symm
          · exact hne (Writer.mem_mentions_dropStale h hc hv) rfl
      · rw [updateCode_of_single hkind hmany, onlyReads_cons]
        exact ⟨hcomment (show Mute "// Sync " by decide), hblock⟩

end Code

end Scaffold
