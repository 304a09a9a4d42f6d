import Mathlib
import Scaffold.Proofs.Code.Layout
import Scaffold.Proofs.Code.Mentions

/-!
# The scope of levels

The code for a nested request mentions the record and the payloads that the level above hands down, and
otherwise only variables named after its own level or one below (`Writer.mem_mentions_code`). Most of
the code of a level does not even mention the payloads that it hands down itself (`Writer.Used`).
-/

namespace Scaffold.Code

open Stmt
open NestedRelation (Within)

variable {c : Configuration} {w : Writer} {branch above : List NestedRelation} {n : NestedRelation}
  {v : String}

/-! ## The variables of a level -/

theorem isName_levelName (branch : List NestedRelation) : IsName (levelName branch) := by
  cases branch with
  | nil => decide
  | cons n above => exact isName_pathName _ _

theorem Writer.isVariable_record (w : Writer) (c : Configuration) (branch : List NestedRelation) :
    IsVariable (w.record c branch) := by
  cases branch with
  | nil => exact isVariable_recordVariable c
  | cons n above => exact w.parent.isVariable (isName_levelName _)

theorem isVariable_nestedVariable (branch : List NestedRelation) :
    IsVariable (nestedVariable branch) := by
  cases branch with
  | nil => exact ⟨"nested".toList, by decide, rfl⟩
  | cons n above => exact Role.nested.isVariable (isName_levelName _)

theorem isVariable_dataVariable (branch : List NestedRelation) : IsVariable (dataVariable branch) := by
  cases branch with
  | nil => exact ⟨"data".toList, by decide, rfl⟩
  | cons n above => exact Role.data.isVariable (isName_levelName _)

theorem isVariable_slugVariable (branch : List NestedRelation) : IsVariable (slugVariable branch) := by
  cases branch with
  | nil => exact ⟨"imageName".toList, by decide, rfl⟩
  | cons n above => exact Role.imageName.isVariable (isName_levelName _)

theorem leadsFrom_earlier (c : Configuration) (branch : List NestedRelation) :
    LeadsFrom (Writer.update.record c branch) (earlier c branch) := by
  cases branch with
  | nil => exact (isVariable_recordVariable c).leadsFrom
  | cons n above =>
    exact (Writer.update.isVariable_record c (n :: above)).leadsFrom.append (by decide)
      (by simp [isNameChar])

/-- The variables that the code of a level works with itself, besides those with the payloads of
requests. -/
inductive Writer.Used (w : Writer) (c : Configuration) : List NestedRelation → String → Prop where
  | record {branch : List NestedRelation} : Used w c branch (w.record c branch)
  | data {branch : List NestedRelation} : Used w c branch (dataVariable branch)
  | slug {branch : List NestedRelation} : Used w c branch (slugVariable branch)
  | old {branch : List NestedRelation} (field : String) :
    Used w c branch (Attachment.oldVariable (levelName branch) field)
  | parent {n : NestedRelation} {above : List NestedRelation} : Used w c (n :: above) (w.record c above)
  | item {n : NestedRelation} {above : List NestedRelation} :
    Used w c (n :: above) (Role.item.variableOf (levelName (n :: above)))
  | keep {n : NestedRelation} {above : List NestedRelation} :
    Used w c (n :: above) (Role.keep.variableOf (levelName (n :: above)))

theorem Branch.within {roots : List NestedRelation} (h : Branch roots (n :: above)) :
    Within roots n := by
  generalize hbranch : n :: above = branch at h
  induction h generalizing n above with
  | root hn =>
    cases hbranch
    exact .root hn
  | deeper _ _ hchild ih =>
    cases hbranch
    exact (ih rfl).deeper hchild

theorem IsLevel.mute_fields (h : IsLevel c branch) (hc : c.Mute) :
    ∀ field ∈ levelFields c branch, Mute field.name := by
  cases h with
  | primary => exact hc.fields
  | nested h _ => exact (hc.nodes _ h.within).fields

namespace Writer

theorem used_of_mem_lookUp (hname : Mute n.relation.name) (hv : v ∈ mentions (lookUp c n above)) :
    Writer.update.Used c (n :: above) v := by
  have hrecord := Role.record.isVariable (isName_levelName (n :: above))
  have hitem := Role.item.isVariable (isName_levelName (n :: above))
  have hparent := Writer.update.isVariable_record c above
  rw [lookUp] at hv
  split at hv
  · have hv : v = Role.record.variableOf (levelName (n :: above)) ∨
        v = Role.item.variableOf (levelName (n :: above)) ∨ v = Writer.update.record c above ∨
        v = Role.item.variableOf (levelName (n :: above)) := by
      simpa [mentions, toString, hrecord.leadsFrom.mentionedIn, hitem.leadsFrom.mentionedIn,
        hparent.leadsFrom.mentionedIn, hname.mentionedIn, mentionedIn, isNameChar] using hv
    obtain rfl | rfl | rfl | rfl := hv
    exacts [.record, .item, .parent, .item]
  · have hv : v = Role.record.variableOf (levelName (n :: above)) ∨
        v = Writer.update.record c above := by
      simpa [mentions, toString, hrecord.leadsFrom.mentionedIn, hparent.leadsFrom.mentionedIn,
        hname.mentionedIn, mentionedIn, isNameChar] using hv
    obtain rfl | rfl := hv
    exacts [.record, .parent]

theorem used_of_mem_before (h : IsLevel c branch) (hc : c.Mute)
    (hv : v ∈ allMentions (w.before c branch)) : w.Used c branch v := by
  have hfields := h.mute_fields hc
  have hdata := isVariable_dataVariable branch
  have hslug := isVariable_slugVariable branch
  cases w with
  | store =>
    simp only [Writer.before, allMentions_append, List.mem_append] at hv
    rcases hv with hv | hv
    · obtain rfl | rfl | rfl := Attachment.mem_mentions_nameCode hslug hdata hfields
        (x := dataVariable branch) (by simp) hv
      exacts [.slug, .data, .data]
    · obtain rfl | rfl := Attachment.mem_mentions_uploadCode hdata hslug hfields hv
      exacts [.data, .slug]
  | update =>
    have hearlier := leadsFrom_earlier c branch
    simp only [Writer.before, allMentions_append, List.mem_append] at hv
    rcases hv with (hv | hv) | hv | hv
    · cases h with
      | primary => simp [find] at hv
      | nested h _ =>
        rw [find, allMentions_line] at hv
        exact used_of_mem_lookUp (hc.nodes _ h.within).name hv
    · obtain ⟨field, rfl⟩ | rfl := Attachment.mem_mentions_captureCode hearlier hfields hv
      exacts [.old field, .record]
    · obtain rfl | rfl | rfl := Attachment.mem_mentions_nameCode hslug hdata hfields
        (by simpa using hearlier) hv
      exacts [.slug, .data, .record]
    · obtain rfl | rfl := Attachment.mem_mentions_uploadCode hdata hslug hfields hv
      exacts [.data, .slug]

theorem used_of_mem_persist (h : IsLevel c branch) (hc : c.Mute)
    (hv : v ∈ allMentions (w.persist c branch)) : w.Used c branch v := by
  cases h with
  | primary =>
    have hrecord := isVariable_recordVariable c
    have hv : v = recordVariable c ∨ v = "$data" := by
      cases w with
      | store =>
        simpa [persist, mentions, toString, hrecord.leadsFrom.mentionedIn, hc.studly.mentionedIn,
          mentionedIn, isNameChar] using hv
      | update =>
        simpa [persist, mentions, toString, hrecord.leadsFrom.mentionedIn, mentionedIn, isNameChar]
          using hv
    obtain rfl | rfl := hv
    exacts [.record, .data]
  | @nested n above h _ =>
    have hname := (hc.nodes _ h.within).name
    have hrecord := w.isVariable_record c (n :: above)
    have hparent := w.isVariable_record c above
    have hdata := isVariable_dataVariable (n :: above)
    have hv : v = w.record c (n :: above) ∨ v = dataVariable (n :: above) ∨ v = w.record c above := by
      cases w with
      | store =>
        rw [persist, allMentions_line] at hv
        have hv : v = store.record c (n :: above) ∨ v = store.record c above ∨
            v = dataVariable (n :: above) := by
          simpa [mentions, toString, hrecord.leadsFrom.mentionedIn, hparent.leadsFrom.mentionedIn,
            hname.mentionedIn, hdata.leadsFrom.mentionedIn, mentionedIn, isNameChar] using hv
        exact hv.imp_right Or.symm
      | update => exact mem_mentions_persistCode hrecord (hparent.leadsFrom.arrow hname) hdata hv
    obtain rfl | rfl | rfl := hv
    exacts [.record, .data, .parent]

theorem used_of_mem_remember (hv : v ∈ allMentions (remember branch)) :
    Writer.update.Used c branch v := by
  cases branch with
  | nil => simp [remember] at hv
  | cons n above =>
    have hkeep := Role.keep.isVariable (isName_levelName (n :: above))
    have hrecord := Role.record.isVariable (isName_levelName (n :: above))
    rw [remember] at hv
    split at hv
    · have hv : v = Role.keep.variableOf (levelName (n :: above)) ∨
          v = Role.record.variableOf (levelName (n :: above)) := by
        simpa [mentions, toString, hrecord.leadsFrom.mentionedIn, hkeep.leadsFrom.mentionedIn,
          mentionedIn, isNameChar] using hv
      obtain rfl | rfl := hv
      exacts [.keep, .record]
    · simp at hv

theorem used_of_mem_settle (h : IsLevel c branch) (hc : c.Mute)
    (hv : v ∈ allMentions (w.settle c branch)) : w.Used c branch v := by
  cases w with
  | store => simp [settle] at hv
  | update =>
    rw [settle, allMentions_append, List.mem_append] at hv
    rcases hv with hv | hv
    · obtain ⟨field, rfl⟩ | rfl := Attachment.mem_mentions_releaseCode
        (isVariable_dataVariable branch) (h.mute_fields hc) hv
      exacts [.old field, .data]
    · exact used_of_mem_remember hv

theorem Used.ofLevel (h : w.Used c (n :: above) v) :
    v = w.record c above ∨ OfLevel (levelName (n :: above)) v := by
  cases h with
  | record => exact .inr (w.parent.ofLevel _)
  | data => exact .inr (Role.data.ofLevel _)
  | slug => exact .inr (Role.imageName.ofLevel _)
  | old field => exact .inr (ofLevel_oldVariable _ field)
  | parent => exact .inl rfl
  | item => exact .inr (Role.item.ofLevel _)
  | keep => exact .inr (Role.keep.ofLevel _)

/-! ## Code for whole requests -/

theorem allMentions_levelCode_cons (w : Writer) (c : Configuration) (n : NestedRelation)
    (above : List NestedRelation) : allMentions (w.levelCode c (n :: above)) =
      allMentions (w.split c (n :: above)) ++ allMentions (w.afterSplit c (n :: above)) := by
  simp only [allMentions_eq_flatMap (levelCode _ _ _), allMentions_eq_flatMap (split _ _ _),
    allMentions_eq_flatMap (afterSplit _ _ _)]
  exact flatMap_levelCode_cons _ allMentions_gap w c n above

theorem mem_mentions_belowCode : v ∈ allMentions (w.belowCode c branch) ↔
    ∃ n ∈ requests c branch, v ∈ allMentions (w.code c (n :: branch)) := by
  simp only [belowCode, allMentions_spaced, List.flatMap_map, List.mem_flatMap, code_cons]

theorem mem_mentions_opening (hv : v ∈ mentions (opening n above ++ " \x7b")) :
    v = nestedVariable above ∨ v = Role.item.variableOf (levelName (n :: above)) := by
  have hnested := isVariable_nestedVariable above
  have hitem := Role.item.isVariable (isName_levelName (n :: above))
  have hkey := mute_requestKey n.relation
  rw [opening] at hv
  split at hv
  · simpa [mentions, toString, hnested.leadsFrom.mentionedIn, hitem.leadsFrom.mentionedIn,
      hkey.mentionedIn, mentionedIn, isNameChar] using hv
  · refine .inl ?_
    simpa [mentions, toString, hnested.leadsFrom.mentionedIn, hkey.mentionedIn, mentionedIn, isNameChar]
      using hv

theorem mute_of_mem_keys (w : Writer) (c : Configuration) (branch : List NestedRelation) :
    ∀ key ∈ payloadKeys (requests c branch) ++ w.more branch, Mute key := by
  have hmore : ∀ key ∈ w.more branch, Mute key := by
    cases branch <;> cases w <;> simp only [more] <;> decide
  intro key hkey
  rcases List.mem_append.1 hkey with hkey | hkey
  · obtain ⟨child, -, rfl⟩ := List.mem_map.1 hkey
    exact mute_requestKey _
  · exact hmore key hkey

theorem mem_mentions_split (hv : v ∈ allMentions (w.split c (n :: above))) :
    v = nestedVariable above ∧ n.relation.kind ≠ .hasMany ∨ OfLevel (levelName (n :: above)) v := by
  have hnested := isVariable_nestedVariable (n :: above)
  have hdata := isVariable_dataVariable (n :: above)
  have hsplit {x : String} (hpayload : LeadsFrom x (levelPayload n above)) :
      v = x ∨ OfLevel (levelName (n :: above)) v := by
    obtain rfl | rfl | hv := mem_mentions_splitCode hnested hdata hpayload
      (mute_of_mem_keys w c (n :: above)) hv
    exacts [.inr (Role.nested.ofLevel _), .inr (Role.data.ofLevel _), .inl hv]
  by_cases hmany : n.relation.kind = .hasMany
  · have hitem := Role.item.isVariable (isName_levelName (n :: above))
    obtain rfl | hv := hsplit (x := Role.item.variableOf (levelName (n :: above))) (by
      rw [levelPayload, if_pos hmany]
      exact hitem.leadsFrom)
    exacts [.inr (Role.item.ofLevel _), .inr hv]
  · refine (hsplit ?_).imp_left fun hv ↦ ⟨hv, hmany⟩
    rw [levelPayload, if_neg hmany]
    exact (isVariable_nestedVariable above).leadsFrom.index (mute_requestKey _)

/-- Once the payloads are split off, the code of a level works with the record of the level above and
with variables of its own, if the code for the requests below does. -/
theorem mem_mentions_afterSplit (h : IsLevel c (n :: above)) (hc : c.Mute)
    (hbelow : ∀ child ∈ n.children, ∀ v ∈ allMentions (w.code c (child :: n :: above)),
      OfLevel (levelName (n :: above)) v)
    (hv : v ∈ allMentions (w.afterSplit c (n :: above))) :
    v = w.record c above ∨ OfLevel (levelName (n :: above)) v := by
  simp only [afterSplit, returned, allMentions_append, List.append_nil, List.mem_append] at hv
  rcases hv with ((hv | hv) | hv) | hv
  · exact (used_of_mem_before h hc hv).ofLevel
  · exact (used_of_mem_persist h hc hv).ofLevel
  · exact (used_of_mem_settle h hc hv).ofLevel
  · obtain ⟨child, hchild, hv⟩ := mem_mentions_belowCode.1 hv
    exact .inr (hbelow child hchild v hv)

/-- What a level hands down is named after it, as is everything below. -/
theorem ofLevel_of_handed {child : NestedRelation}
    (hv : v = w.record c (n :: above) ∨ v = nestedVariable (n :: above) ∨
      OfLevel (levelName (child :: n :: above)) v) : OfLevel (levelName (n :: above)) v := by
  obtain rfl | rfl | hv := hv
  · exact w.parent.ofLevel _
  · exact Role.nested.ofLevel _
  · exact hv.mono (letters_le_pathName _ _)

theorem mem_mentions_dropStale (h : Branch c.nested (n :: above)) (hc : c.Mute)
    (hv : v ∈ allMentions (dropStale c n above)) :
    v = Writer.update.record c above ∨ OfLevel (levelName (n :: above)) v := by
  have hn := hc.nodes n h.within
  have hmute : ∀ m, Within n.children m → m.Mute := fun m hm ↦
    hc.nodes m (h.within.trans hm)
  obtain hv | rfl | hv := mem_mentions_staleCode (Writer.update.isVariable_record c above) hn.name
    (Role.keep.isVariable (isName_levelName _)) hn.fields hmute hv
  exacts [.inl hv, .inr (Role.keep.ofLevel _), .inr hv]

/-- The code for a request mentions the record and the payloads of the level above, and variables
of its own level and those below. -/
theorem mem_mentions_code (h : Branch c.nested (n :: above)) (hc : c.Mute)
    (hv : v ∈ allMentions (w.code c (n :: above))) :
    v = w.record c above ∨ v = nestedVariable above ∨ OfLevel (levelName (n :: above)) v := by
  induction n using NestedRelation.induction_children generalizing above v with
  | h n ih =>
    have hname := (hc.nodes n h.within).name
    have hparent := w.isVariable_record c above
    have hnested := isVariable_nestedVariable above
    by_cases hkind : n.relation.kind = .belongsToMany
    · rw [code_cons] at hv
      cases w with
      | store =>
        rw [node, storeNode_of_belongsToMany hkind] at hv
        exact (mem_mentions_syncCode (by decide) hparent hnested hname hv).imp_right .inl
      | update =>
        rw [node, updateNode_of_belongsToMany hkind] at hv
        exact (mem_mentions_syncCode (by decide) hparent hnested hname hv).imp_right .inl
    · have hbelow (child : NestedRelation) (hchild : child ∈ n.children) (v : String)
          (hv : v ∈ allMentions (w.code c (child :: n :: above))) :
          OfLevel (levelName (n :: above)) v :=
        ofLevel_of_handed (ih child hchild (h.deeper hkind hchild) hv)
      have hblock (hv : v ∈ allMentions [braces (opening n above) (w.levelCode c (n :: above))]) :
          v = w.record c above ∨ v = nestedVariable above ∨ OfLevel (levelName (n :: above)) v := by
        rw [allMentions_braces, List.mem_append] at hv
        rcases hv with hv | hv
        · obtain hv | rfl := mem_mentions_opening hv
          exacts [.inr (.inl hv), .inr (.inr (Role.item.ofLevel _))]
        · rw [allMentions_levelCode_cons, List.mem_append] at hv
          rcases hv with hv | hv
          · exact (mem_mentions_split hv).elim (fun hv ↦ .inr (.inl hv.1)) fun hv ↦ .inr (.inr hv)
          · exact (mem_mentions_afterSplit (.nested h hkind) hc hbelow hv).imp_right .inr
      have hcomment {start : String} (hstart : Mute start)
          (hv : v ∈ allMentions [.line (start ++ n.relation.name)]) : False := by
        simp [allMentions_line_of_mute hstart hname] at hv
      cases w with
      | store =>
        rw [storeCode_eq hkind, allMentions_cons, List.mem_append] at hv
        exact hv.elim (fun hv ↦ (hcomment (show Mute "// Create " by decide) hv).elim) hblock
      | update =>
        by_cases hmany : n.relation.kind = .hasMany
        · rw [updateCode_of_hasMany hmany, allMentions_cons, allMentions_braces] at hv
          simp only [allMentions_spaced, List.flatMap_cons, List.flatMap_nil, List.append_nil,
            List.mem_append] at hv
          rcases hv with hv | hv | hv | hv | hv
          · exact (hcomment (show Mute "// Sync " by decide) hv).elim
          · refine .inr (.inl ?_)
            simpa [mentions, toString, hnested.leadsFrom.mentionedIn, (mute_requestKey _).mentionedIn,
              mentionedIn, isNameChar] using hv
          · have hkeep := Role.keep.isVariable (isName_levelName (n :: above))
            have hv : v = Role.keep.variableOf (levelName (n :: above)) := by
              simpa [mentions, toString, hkeep.leadsFrom.mentionedIn, mentionedIn, isNameChar] using hv
            exact .inr (.inr (hv ▸ Role.keep.ofLevel _))
          · exact hblock hv
          · exact (mem_mentions_dropStale h hc hv).imp_right .inr
        · rw [updateCode_of_single hkind hmany, allMentions_cons, List.mem_append] at hv
          exact hv.elim (fun hv ↦ (hcomment (show Mute "// Sync " by decide) hv).elim) hblock

end Writer

end Scaffold.Code
