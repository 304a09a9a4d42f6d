import Mathlib
import Scaffold.Proofs.Code.Reads

/-!
# Splitting off nested payloads

Three places of a level must agree on the keys of the requests nested in it: their payloads are split off
the data of the record, the code for the requests reads them, and none of them may reach the row. They
agree at every level, if the variables of the level are safe from those of the levels below
(`Writer.splitsPayloads`).
-/

namespace Scaffold.Code

open Name Stmt

variable {c : Configuration} {w : Writer} {branch above : List NestedRelation} {n : NestedRelation}
  {v : String}

/-! ## Variables that differ -/

theorem Role.letters_variableOf (role : Role) (name : String) :
    Name.letters (role.variableOf name) = role.letters + Name.letters name := by
  obtain ⟨spelled, hspelled, heq⟩ := role.exists_variableOf_eq name
  rw [heq, letters_append, letters_append, hspelled, Role.letters, add_right_comm]

theorem Role.variableOf_ne {role role' : Role} (h : role ≠ role') (name : String) :
    role.variableOf name ≠ role'.variableOf name := by
  intro heq
  have hletters := congrArg Name.letters heq
  rw [letters_variableOf, letters_variableOf, add_left_inj] at hletters
  exact h (Role.eq_of_letters_le _ _ hletters.le)

theorem Role.variableOf_ne_oldVariable {role : Role} (h : role ≠ .old) (name field : String) :
    role.variableOf name ≠ Attachment.oldVariable name field := by
  intro heq
  have hletters := congrArg Name.letters heq
  have hold : Role.old.variableOf name ++ studly field = Attachment.oldVariable name field := rfl
  rw [← hold, letters_append, letters_variableOf, letters_variableOf, add_right_comm,
    add_left_inj] at hletters
  exact h (Role.eq_of_letters_le _ _ (hletters ▸ Multiset.le_add_right _ _)).symm

/-- No variable of a level with another role is that of a level below. -/
theorem Role.variableOf_ne_below {role role' : Role} (h : role ≠ role') (path key : String) :
    role.variableOf path ≠ role'.variableOf (pathName path key) := by
  intro heq
  have hletters := congrArg Name.letters heq
  rw [letters_variableOf, letters_variableOf, letters_pathName, add_left_comm, add_comm role.letters,
    add_left_cancel_iff] at hletters
  exact h (Role.eq_of_letters_le _ _ (hletters ▸ Multiset.le_add_right _ _)).symm

/-- The variable of the primary record is no reserved one. -/
theorem recordVariable_ne (c : Configuration) {name : String} (hname : name ∈ reserved) :
    recordVariable c ≠ "$" ++ name := by
  have hlonger : ∀ x ∈ reserved, x ++ "Record" ∉ reserved := by decide
  intro heq
  have heq : recordName c = name := by simpa [recordVariable] using heq
  rw [recordName] at heq
  split at heq
  · next hcamel => exact hlonger _ (List.contains_iff_mem.1 hcamel) (heq ▸ hname)
  · next hcamel => exact hcamel (List.contains_iff_mem.2 (heq ▸ hname))

theorem oldVariable_ne_fixed {x : String} (hx : x ∈ ["$data", "$nested", "$imageName"])
    (path field : String) : Attachment.oldVariable path field ≠ x := by
  have hfixed : ∀ x ∈ ["$data", "$nested", "$imageName"], ¬"$old".toList <+: x.toList := by decide
  rintro rfl
  refine hfixed _ hx ?_
  rw [Attachment.oldVariable, String.append_assoc, String.toList_append]
  exact List.prefix_append _ _

/-- The variables that a level works with are not the one for the payloads that it hands down, unless the
name of the primary record is that of the latter. -/
theorem Writer.Used.ne_nestedVariable (h : w.Used c branch v)
    (hrecord : ∀ n, branch = [n] → recordVariable c ≠ nestedVariable branch) :
    v ≠ nestedVariable branch := by
  have hparent : w.parent ≠ .nested := by cases w <;> decide
  cases h with
  | @record branch =>
    cases branch with
    | nil => exact show recordVariable c ≠ "$" ++ "nested" from recordVariable_ne c (by decide)
    | cons n above => exact Role.variableOf_ne hparent _
  | @data branch =>
    cases branch with
    | nil => exact show "$data" ≠ "$nested" by decide
    | cons n above => exact Role.variableOf_ne (show Role.data ≠ .nested by decide) _
  | @slug branch =>
    cases branch with
    | nil => exact show "$imageName" ≠ "$nested" by decide
    | cons n above => exact Role.variableOf_ne (show Role.imageName ≠ .nested by decide) _
  | @old branch field =>
    cases branch with
    | nil => exact oldVariable_ne_fixed (by decide) _ _
    | cons n above => exact (Role.variableOf_ne_oldVariable (show Role.nested ≠ .old by decide) _ _).symm
  | @parent n above =>
    cases above with
    | nil => exact hrecord n rfl
    | cons m rest => exact Role.variableOf_ne_below hparent _ _
  | item => exact Role.variableOf_ne (show Role.item ≠ .nested by decide) _
  | keep => exact Role.variableOf_ne (show Role.keep ≠ .nested by decide) _

theorem not_ofLevel_nestedVariable (hkey : branch ≠ [] → letters n.relation.requestKey ≠ 0) :
    ¬OfLevel (levelName (n :: branch)) (nestedVariable branch) := by
  cases branch with
  | nil => exact fun h ↦ not_reaches_of_mem (by simp [nestedVariable]) _ h.reaches
  | cons m above =>
    have hlt := letters_levelName_lt (List.suffix_refl (m :: above)) (hkey (List.cons_ne_nil _ _))
    exact fun h ↦ h.ne_variableOf hlt .nested rfl

/-! ## What a level assigns -/

theorem assigns_lookUp (c : Configuration) (n : NestedRelation) (above : List NestedRelation) :
    assigns (.line (lookUp c n above)) = [Role.record.variableOf (levelName (n :: above))] := by
  have hrecord := Role.record.isVariable (isName_levelName (n :: above))
  rw [lookUp]
  split <;> exact hrecord.assigns_of_equals (by simp [toString]; rfl)

theorem mem_allAssigns_find (hv : v ∈ allAssigns (find c branch)) :
    ∃ n above, branch = n :: above ∧ v = Role.record.variableOf (levelName branch) := by
  cases branch with
  | nil => simp [find] at hv
  | cons n above =>
    rw [find, allAssigns_singleton, assigns_lookUp, List.mem_singleton] at hv
    exact ⟨n, above, rfl, hv⟩

namespace Writer

theorem used_of_mem_assigns_before (hv : v ∈ allAssigns (w.before c branch)) : w.Used c branch v := by
  have hslug := isVariable_slugVariable branch
  have hdata := isVariable_dataVariable branch
  cases w with
  | store =>
    simp only [before, allAssigns_append, List.mem_append] at hv
    rcases hv with hv | hv
    · rw [List.mem_singleton.1 (Attachment.allAssigns_nameCode_subset hslug _ _ _ hv)]
      exact .slug
    · rw [List.mem_singleton.1 (Attachment.allAssigns_uploadCode_subset hdata _ _ _ hv)]
      exact .data
  | update =>
    simp only [before, allAssigns_append, List.mem_append] at hv
    rcases hv with (hv | hv) | hv | hv
    · obtain ⟨n, above, rfl, rfl⟩ := mem_allAssigns_find hv
      exact .record
    · obtain ⟨field, rfl⟩ := Attachment.exists_of_mem_captureCode hv
      exact .old field
    · rw [List.mem_singleton.1 (Attachment.allAssigns_nameCode_subset hslug _ _ _ hv)]
      exact .slug
    · rw [List.mem_singleton.1 (Attachment.allAssigns_uploadCode_subset hdata _ _ _ hv)]
      exact .data

theorem used_of_mem_assigns_persist (hv : v ∈ allAssigns (w.persist c branch)) : w.Used c branch v := by
  have hrecord := w.isVariable_record c branch
  have hv : v = w.record c branch := by
    cases branch with
    | nil =>
      cases w with
      | store =>
        rw [persist, allAssigns_singleton, hrecord.assigns_of_equals (by simp [toString, record]; rfl)] at hv
        exact List.mem_singleton.1 hv
      | update =>
        rw [persist, allAssigns_singleton, hrecord.assigns_of_arrow (by simp [toString, record]; rfl)] at hv
        simp at hv
    | cons n above =>
      cases w with
      | store =>
        rw [persist, allAssigns_singleton, hrecord.assigns_of_equals (by simp [toString]; rfl)] at hv
        exact List.mem_singleton.1 hv
      | update =>
        rw [persist, allAssigns_singleton, assigns_persistCode hrecord] at hv
        exact List.mem_singleton.1 hv
  exact hv ▸ .record

theorem used_of_mem_assigns_settle (hv : v ∈ allAssigns (w.settle c branch)) : w.Used c branch v := by
  cases w with
  | store => simp [settle] at hv
  | update =>
    rw [settle, allAssigns_append, Attachment.allAssigns_releaseCode, List.nil_append] at hv
    cases branch with
    | nil => simp [remember] at hv
    | cons n above =>
      have hkeep := Role.keep.isVariable (isName_levelName (n :: above))
      rw [remember] at hv
      split at hv
      · rw [allAssigns_singleton, hkeep.assigns_of_index (by simp [toString]; rfl),
          List.mem_singleton] at hv
        exact hv ▸ .keep
      · simp at hv

theorem mem_allAssigns_belowCode : v ∈ allAssigns (w.belowCode c branch) ↔
    ∃ n ∈ requests c branch, v ∈ allAssigns (w.code c (n :: branch)) := by
  simp only [belowCode, allAssigns_spaced, List.flatMap_map, List.mem_flatMap, code_cons]

theorem allAssigns_code_of_belongsToMany (hkind : n.relation.kind = .belongsToMany) :
    allAssigns (w.code c (n :: above)) = [] := by
  have hrecord := w.isVariable_record c above
  rw [code_cons]
  cases w with
  | store => rw [node, storeNode_of_belongsToMany hkind, allAssigns_syncCode hrecord]
  | update => rw [node, updateNode_of_belongsToMany hkind, allAssigns_syncCode hrecord]

end Writer

theorem mentions_returnCode (hc : c.Mute) : allMentions [returnCode c] = [recordVariable c] := by
  have hrecord := isVariable_recordVariable c
  have hloads : Mute (eagerList c) :=
    Text.not_mem_intercalate (by decide) (List.forall_mem_map.2 fun name hname ↦ by
      have := hc.loads name hname
      rw [Mute] at this
      simp [toString, this])
  simp only [returnCode]
  split
  · simp [mentions, toString, hrecord.leadsFrom.mentionedIn, hloads.mentionedIn, mentionedIn, isNameChar]
  · simp [mentions, toString, hrecord.leadsFrom.mentionedIn, mentionedIn, isNameChar]

theorem assigns_returnCode (c : Configuration) : assigns (returnCode c) = [] := by
  simp only [returnCode]
  split <;> exact assigns_of_head?_ne (by simp [toString])

/-! ## The rest of the code of a level -/

theorem IsLevel.below (h : IsLevel c branch) (hn : n ∈ requests c branch) :
    Branch c.nested (n :: branch) := by
  cases h with
  | primary => exact .root hn
  | nested h hkind => exact h.deeper hkind hn

section

variable (h : IsLevel c branch)
  (hrecord : ∀ n, branch = [n] → recordVariable c ≠ nestedVariable branch)
  (hkeys : branch ≠ [] → ∀ n ∈ requests c branch, n.relation.kind ≠ .belongsToMany →
    letters n.relation.requestKey ≠ 0)

include h hrecord hkeys

/-- Nothing behind the splitting assigns the payloads that were split off. -/
theorem not_mem_assigns_afterSplit (w : Writer) :
    nestedVariable branch ∉ allAssigns (w.afterSplit c branch) := by
  intro hv
  simp only [Writer.afterSplit, allAssigns_append, List.mem_append] at hv
  rcases hv with (((hv | hv) | hv) | hv) | hv
  · exact (Writer.used_of_mem_assigns_before hv).ne_nestedVariable hrecord rfl
  · exact (Writer.used_of_mem_assigns_persist hv).ne_nestedVariable hrecord rfl
  · exact (Writer.used_of_mem_assigns_settle hv).ne_nestedVariable hrecord rfl
  · obtain ⟨n, hn, hv⟩ := Writer.mem_allAssigns_belowCode.1 hv
    by_cases hkind : n.relation.kind = .belongsToMany
    · simp [Writer.allAssigns_code_of_belongsToMany hkind] at hv
    · exact not_ofLevel_nestedVariable (hkeys · n hn hkind) (ofLevel_of_mem_code hv)
  · cases branch <;> simp [returned, assigns_returnCode] at hv

/-- Whatever mentions the payloads behind the splitting, reads one that was split off. -/
theorem onlyReads_afterSplit (hc : c.Mute) (w : Writer) : OnlyReads (nestedVariable branch)
    (payloadKeys (requests c branch)) (w.afterSplit c branch) := by
  have hused {code : List Stmt} (hcode : ∀ v ∈ allMentions code, w.Used c branch v) :
      OnlyReads (nestedVariable branch) (payloadKeys (requests c branch)) code :=
    onlyReads_of_not_mem fun hv ↦ (hcode _ hv).ne_nestedVariable hrecord rfl
  have hparent : w.Used c branch (w.record c branch) := .record
  simp only [Writer.afterSplit, onlyReads_append]
  refine ⟨⟨⟨⟨hused fun v ↦ Writer.used_of_mem_before h hc, hused fun v ↦ Writer.used_of_mem_persist h hc⟩,
    hused fun v ↦ Writer.used_of_mem_settle h hc⟩, ?_⟩, ?_⟩
  · rw [Writer.belowCode, onlyReads_spaced, List.forall_mem_map]
    intro n hn
    rw [← Writer.code_cons]
    have hread := onlyReads_code (w := w) (h.below hn) hc (hparent.ne_nestedVariable hrecord).symm
      fun hkind ↦ not_ofLevel_nestedVariable (hkeys · n hn hkind)
    exact hread.mono (List.cons_subset.2 ⟨List.mem_map_of_mem hn, List.nil_subset _⟩)
  · refine hused fun v hv ↦ ?_
    cases branch with
    | nil =>
      rw [returned, mentions_returnCode hc, List.mem_singleton] at hv
      exact hv ▸ hparent
    | cons n above => simp [returned] at hv

end

/-! ## Agreement -/

/-- The heads of blocks between the splitting and the rest of the code of a level. -/
def Writer.closure (w : Writer) (c : Configuration) : List NestedRelation → List String
  | [] =>
    let uses := match w with
      | store => if c.hasNested then "$data, $nested" else "$data"
      | update =>
        let record := recordVariable c
        if c.hasNested then s!"{record}, $data, $nested" else s!"{record}, $data"
    [s!"return DB::transaction(function () use ({uses}) \x7b"]
  | _ :: _ => []

/-- The step replaces an item of the array, and does so only if the array has it. -/
def ReplacesItem (array : String) (step : Step) : Prop :=
  ∃ field : String, s!"{array}['{field}'] = ".toList <+: step.text.toList ∧
    ∃ head ∈ step.blocks, s!"if (isset({array}['{field}'])".toList <+: head.toList

/-- The code of a level splits off what the requests nested in it read, and keeps it from the row. -/
structure Writer.SplitsPayloads (w : Writer) (c : Configuration) (branch : List NestedRelation) :
    Prop where
  /-- The payloads are split off before anything else happens at the level. -/
  first : ∃ blocks, (allSteps (w.split c branch) ++
      (allSteps (w.afterSplit c branch)).map (Step.within (w.closure c branch))).map
        (Step.within blocks) <:+: allSteps (w.body c)
  /-- They go into one array, and the data of the record are what is left. -/
  lists : requests c branch ≠ [] →
    let source := levelSource branch
    let keys := payloadKeys (requests c branch)
    allSteps (w.split c branch) =
      [⟨[], s!"{nestedVariable branch} = Arr::only({source}, {Text.quotedList keys});"⟩,
        ⟨[], s!"{dataVariable branch} = Arr::except({source}, {Text.quotedList (keys ++ w.more branch)});"⟩]
  /-- A closure gets the payloads if there are any. -/
  passed : ∀ head ∈ w.closure c branch, nestedVariable branch ∈ mentions head ↔ requests c branch ≠ []
  /-- The array of payloads stays as it is. -/
  unchanged : nestedVariable branch ∉ allAssigns (w.afterSplit c branch)
  /-- Only payloads that were split off are read, if there are any. -/
  read : OnlyReads (nestedVariable branch) (payloadKeys (requests c branch)) (w.afterSplit c branch)
  /-- The data of the record get no items back before the row is written. -/
  replaced : ∀ step ∈ allSteps (w.before c branch), dataVariable branch ∈ lineAssigns step.text →
    ReplacesItem (dataVariable branch) step
  /-- These data make up the row. -/
  persisted : ∀ step ∈ allSteps (w.persist c branch), ∃ call ∈ ["create", "update"],
    s!"{call}({dataVariable branch});".toList <:+ step.text.toList

theorem steps_body (w : Writer) (c : Configuration) : allSteps (w.body c) =
    allSteps (w.split c []) ++
      (allSteps (w.afterSplit c [])).map (Step.within (w.closure c [])) := by
  rw [← allSteps_levelCode_nil]
  cases w with
  | store => simp [Writer.body, storeBody, Writer.split, Writer.levelCode, Writer.closure]
  | update => simp [Writer.body, updateBody, Writer.split, Writer.levelCode, Writer.closure]

theorem exists_infix_of_isLevel (h : IsLevel c branch) (w : Writer) :
    ∃ blocks, (allSteps (w.split c branch) ++
      (allSteps (w.afterSplit c branch)).map (Step.within (w.closure c branch))).map
        (Step.within blocks) <:+: allSteps (w.body c) := by
  cases h with
  | primary =>
    refine ⟨[], ?_⟩
    rw [funext Step.within_nil, List.map_id', steps_body]
  | @nested n above h hkind =>
    have hlevel := (IsLevel.nested h hkind).inside w
    rw [Inside, allSteps_levelCode_cons] at hlevel
    simpa only [Writer.closure, funext Step.within_nil, List.map_id'] using hlevel

theorem steps_split (w : Writer) (c : Configuration) (branch : List NestedRelation)
    (h : requests c branch ≠ []) :
    let source := levelSource branch
    let keys := payloadKeys (requests c branch)
    allSteps (w.split c branch) =
      [⟨[], s!"{nestedVariable branch} = Arr::only({source}, {Text.quotedList keys});"⟩,
        ⟨[], s!"{dataVariable branch} = Arr::except({source}, {Text.quotedList (keys ++ w.more branch)});"⟩] := by
  have hkeys : payloadKeys (requests c branch) ≠ [] := by simpa [payloadKeys] using h
  have hcode (source nested data : String) (more : List String) :
      allSteps (splitCode source (payloadKeys (requests c branch)) nested data more) =
        [⟨[], s!"{nested} = Arr::only({source}, {Text.quotedList (payloadKeys (requests c branch))});"⟩,
          ⟨[], s!"{data} = Arr::except({source}, {Text.quotedList (payloadKeys (requests c branch) ++ more)});"⟩] := by
    simp [splitCode, hkeys, allSteps]
  cases branch with
  | nil =>
    have hnested : c.hasNested = true := by simpa [Configuration.hasNested, requests] using h
    rw [Writer.split, primarySplit, if_pos hnested]
    exact hcode _ _ _ _
  | cons n above => exact hcode _ _ _ _

theorem nestedVariable_mem_closure (w : Writer) (c : Configuration) (branch : List NestedRelation) :
    ∀ head ∈ w.closure c branch, nestedVariable branch ∈ mentions head ↔ requests c branch ≠ [] := by
  cases branch with
  | cons n above => simp [Writer.closure]
  | nil =>
    have hrecord := isVariable_recordVariable c
    have hne : "$nested" ≠ recordVariable c :=
      (show recordVariable c ≠ "$" ++ "nested" from recordVariable_ne c (by decide)).symm
    by_cases hnested : c.nested = []
    · have hno : c.hasNested = false := by simp [Configuration.hasNested, hnested]
      cases w <;>
        simp [Writer.closure, hno, requests, hnested, nestedVariable, mentions, toString,
          hrecord.leadsFrom.mentionedIn, mentionedIn, isNameChar, hne]
    · have hyes : c.hasNested = true := by simp [Configuration.hasNested, hnested]
      cases w <;>
        simp [Writer.closure, hyes, requests, hnested, nestedVariable, mentions, toString,
          hrecord.leadsFrom.mentionedIn, mentionedIn, isNameChar]

theorem dataVariable_ne_slugVariable (branch : List NestedRelation) :
    dataVariable branch ≠ slugVariable branch := by
  cases branch with
  | nil => exact show "$data" ≠ "$imageName" by decide
  | cons n above => exact Role.variableOf_ne (show Role.data ≠ .imageName by decide) _

theorem dataVariable_ne_oldVariable (branch : List NestedRelation) (field : String) :
    dataVariable branch ≠ Attachment.oldVariable (levelName branch) field := by
  cases branch with
  | nil => exact (oldVariable_ne_fixed (by decide) _ _).symm
  | cons n above => exact Role.variableOf_ne_oldVariable (show Role.data ≠ .old by decide) _ _

theorem replacesItem_of_mem_uploadCode {fields : List Field} {entity data slug : String} {step : Step}
    (h : step ∈ allSteps (Attachment.uploadCode fields entity data slug)) : ReplacesItem data step := by
  rw [Attachment.uploadCode, allSteps_eq_flatMap, List.flatMap_map] at h
  obtain ⟨field, -, h⟩ := List.mem_flatMap.1 h
  rw [Attachment.uploadField, steps_braces, allSteps_singleton, steps_line, List.map_singleton,
    List.mem_singleton] at h
  subst h
  exact ⟨field, by simp [Step.within, toString], _, List.mem_singleton_self _, by simp [toString]⟩

theorem replacesItem_of_mem_before (w : Writer) (c : Configuration) (branch : List NestedRelation) :
    ∀ step ∈ allSteps (w.before c branch), dataVariable branch ∈ lineAssigns step.text →
      ReplacesItem (dataVariable branch) step := by
  have hname (fallback : Option String) : dataVariable branch ∉ allAssigns
      (Attachment.nameCode (levelFields c branch) (dataVariable branch) (slugVariable branch) fallback) :=
    fun hv ↦ dataVariable_ne_slugVariable branch (List.mem_singleton.1
      (Attachment.allAssigns_nameCode_subset (isVariable_slugVariable branch) _ _ _ hv))
  intro step hstep hdata
  have hnot {code : List Stmt} (hstep : step ∈ allSteps code) : dataVariable branch ∈ allAssigns code :=
    mem_allAssigns_of_step code step hstep _ hdata
  cases w with
  | store =>
    rw [Writer.before, allSteps_append, List.mem_append] at hstep
    exact hstep.elim (fun hstep ↦ absurd (hnot hstep) (hname none)) replacesItem_of_mem_uploadCode
  | update =>
    simp only [Writer.before, allSteps_append, List.mem_append] at hstep
    rcases hstep with (hstep | hstep) | hstep | hstep
    · obtain ⟨n, above, rfl, heq⟩ := mem_allAssigns_find (hnot hstep)
      exact absurd heq (Role.variableOf_ne (show Role.data ≠ .record by decide) _)
    · obtain ⟨field, heq⟩ := Attachment.exists_of_mem_captureCode (hnot hstep)
      exact absurd heq (dataVariable_ne_oldVariable branch field)
    · exact absurd (hnot hstep) (hname _)
    · exact replacesItem_of_mem_uploadCode hstep

theorem suffix_of_mem_persist (w : Writer) (c : Configuration) (branch : List NestedRelation) :
    ∀ step ∈ allSteps (w.persist c branch), ∃ call ∈ ["create", "update"],
      s!"{call}({dataVariable branch});".toList <:+ step.text.toList := by
  have hends (call before : String) : s!"{call}({dataVariable branch});".toList <:+
      (before ++ s!"{call}({dataVariable branch});").toList :=
    ⟨before.toList, String.toList_append.symm⟩
  have hcreate (before : String) : ∃ call ∈ ["create", "update"],
      s!"{call}({dataVariable branch});".toList <:+
        (before ++ s!"create({dataVariable branch});").toList :=
    ⟨"create", List.mem_cons_self, hends _ _⟩
  have hupdate (before : String) : ∃ call ∈ ["create", "update"],
      s!"{call}({dataVariable branch});".toList <:+
        (before ++ s!"update({dataVariable branch});").toList :=
    ⟨"update", List.mem_cons_of_mem _ List.mem_cons_self, hends _ _⟩
  intro step hstep
  cases branch with
  | nil =>
    cases w with
    | store =>
      rw [Writer.persist, allSteps_singleton, steps_line, List.mem_singleton] at hstep
      rw [hstep]
      simpa [toString, dataVariable] using hcreate s!"{recordVariable c} = {c.studly}::"
    | update =>
      rw [Writer.persist, allSteps_singleton, steps_line, List.mem_singleton] at hstep
      rw [hstep]
      simpa [toString, dataVariable] using hupdate s!"{recordVariable c}->"
  | cons n above =>
    cases w with
    | store =>
      rw [Writer.persist, allSteps_singleton, steps_line, List.mem_singleton] at hstep
      rw [hstep]
      let created := Writer.store.record c (n :: above)
      simpa [toString] using hcreate s!"{created} = {Writer.store.record c above}->{n.relation.name}()->"
    | update =>
      rw [Writer.persist, persistCode, allSteps_singleton, steps] at hstep
      simp only [allSteps_singleton, steps_line, List.map_singleton, List.mem_append,
        List.mem_singleton] at hstep
      cases hstep with
      | inl hstep =>
        rw [hstep]
        simpa [toString, Step.within] using hupdate s!"{Writer.update.record c (n :: above)}->"
      | inr hstep =>
        rw [hstep]
        let record := Writer.update.record c (n :: above)
        simpa [toString, Step.within] using
          hcreate s!"{record} = {Writer.update.record c above}->{n.relation.name}()->"

/-- At every level of every tree the payloads of nested requests are split off the data first, the code
for the requests reads nothing but what was split off, and no key of a request reaches the row. -/
theorem Writer.splitsPayloads (w : Writer) (hc : c.Mute) (h : IsLevel c branch)
    (hrecord : ∀ n, branch = [n] → recordVariable c ≠ nestedVariable branch)
    (hkeys : branch ≠ [] → ∀ n ∈ requests c branch, n.relation.kind ≠ .belongsToMany →
      letters n.relation.requestKey ≠ 0) : w.SplitsPayloads c branch where
  first := exists_infix_of_isLevel h w
  lists := steps_split w c branch
  passed := nestedVariable_mem_closure w c branch
  unchanged := not_mem_assigns_afterSplit h hrecord hkeys w
  read := onlyReads_afterSplit h hrecord hkeys hc w
  replaced := replacesItem_of_mem_before w c branch
  persisted := suffix_of_mem_persist w c branch

theorem books_splitsPayloads :
    allSteps (Writer.update.split (withBooks "Author") [nestedBooks]) =
      [⟨[], "$booksNested = Arr::only($booksItem, ['chapters']);"⟩,
        ⟨[], "$booksData = Arr::except($booksItem, ['chapters', 'id']);"⟩] ∧
    OnlyReads "$booksNested" ["chapters"]
      (Writer.update.afterSplit (withBooks "Author") [nestedBooks]) := by
  have hnodes : ∀ n, NestedRelation.Within (withBooks "Author").nested n →
      Mute n.relation.name ∧ ∀ field ∈ n.fields, Mute field.name := by decide
  have hmute : (withBooks "Author").Mute :=
    ⟨by decide, by decide, by decide, fun n hn ↦ ⟨(hnodes n hn).1, (hnodes n hn).2⟩⟩
  have hlevel : IsLevel (withBooks "Author") [nestedBooks] :=
    .nested (.root List.mem_cons_self) (by decide)
  have hnested : nestedVariable [nestedBooks] = "$booksNested" := by decide
  have hsplits := Writer.update.splitsPayloads hmute hlevel
    (fun _ _ ↦ by decide) fun _ ↦ by decide
  constructor
  · rw [hsplits.lists (by decide)]
    decide
  · rw [← hnested]
    exact hsplits.read

end Scaffold.Code
