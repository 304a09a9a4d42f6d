import Mathlib
import Scaffold.Proofs.Ends
import Scaffold.Proofs.Entity.Components
import Scaffold.Proofs.Entries
import Scaffold.Proofs.Name.Studly
import Scaffold.Validation.Checks

/-!
# Accepted schemas

What a validation without errors says about the schema behind a raw value: its keys are
identifiers with different studly names, every entity is there as it was read, all fields can be
parsed and all components are known. Relations need not lead anywhere: an unknown target is only
worth a warning.
-/

namespace Scaffold

namespace Validation

/-- Identifiers start as names do. -/
theorem exists_toList_of_isIdentifier {s : String} (h : isIdentifier s) :
    ∃ c rest, s.toList = c :: rest ∧ isNameStart c = true := by
  have hprefix : withoutFinalFeed s.toList <+: s.toList := by
    rw [withoutFinalFeed]
    split
    · exact List.dropLast_prefix _
    · exact List.prefix_rfl
  rw [isIdentifier] at h
  rcases hcut : withoutFinalFeed s.toList with - | ⟨c, rest⟩
  · simp [hcut] at h
  · rw [hcut] at h hprefix
    obtain ⟨more, hmore⟩ := hprefix
    simp only [Bool.and_eq_true] at h
    exact ⟨c, rest ++ more, hmore.symm, h.1⟩

/-- No integer, list or mapping is written as an identifier, so identifiers have texts. -/
theorem not_isOversize_of_isIdentifier {v : Value} (h : isIdentifier v.plain) :
    v.isOversize = false := by
  obtain ⟨c, rest, htext, hstart⟩ := exists_toList_of_isIdentifier h
  cases v with
  | int i =>
    exfalso
    replace htext : (Int.repr i).toList = c :: rest := htext
    cases i with
    | ofNat n =>
      have hdigit : c.isDigit = true := by
        refine Nat.isDigit_of_mem_toDigits (b := 10) (n := n) (by decide) (by decide) ?_
        rw [← Nat.toList_repr, show (Nat.repr n).toList = c :: rest from htext]
        exact List.mem_cons_self
      have halpha := Name.not_isAlpha_of_isDigit hdigit
      rw [isNameStart, halpha, Bool.false_or, beq_iff_eq] at hstart
      subst hstart
      cases hdigit
    | negSucc n =>
      rw [show Int.repr (.negSucc n) = "-" ++ Nat.repr (n + 1) from rfl, String.toList_append]
        at htext
      obtain rfl : '-' = c := (List.cons.inj htext).1
      cases hstart
  | list items =>
    exfalso
    rw [show (Value.list items).plain = "[" ++ ", ".intercalate (Value.literals items) ++ "]"
      from rfl, String.toList_append, String.toList_append] at htext
    obtain rfl : '[' = c := (List.cons.inj htext).1
    cases hstart
  | map entries =>
    exfalso
    rw [show (Value.map entries).plain =
        "\x7b" ++ ", ".intercalate (Value.entryLiterals entries) ++ "\x7d" from rfl,
      String.toList_append, String.toList_append] at htext
    obtain rfl : '\x7b' = c := (List.cons.inj htext).1
    cases hstart
  | _ => rfl

/-- Names that give no error are identifiers, and their studly names are new. -/
theorem namesFrom_spec (keys : List String) {seen : List (String × String)}
    (h : ∀ i ∈ namesFrom seen keys, i.level = .warning) :
    (∀ key ∈ keys, isIdentifier key ∧ seen.lookup (Name.studly key) = none) ∧
      (keys.map Name.studly).Nodup := by
  induction keys generalizing seen with
  | nil => simp
  | cons key rest ih =>
    by_cases hid : isIdentifier key
    · simp only [namesFrom, hid, Bool.not_true, Bool.false_eq_true, if_false, List.mem_append] at h
      have hnew : seen.lookup (Name.studly key) = none := by
        rcases hlook : seen.lookup (Name.studly key) with - | first
        · rfl
        · have := h (.duplicate first key) (.inl (.inr (by simp [hlook])))
          simp [Issue.level] at this
      obtain ⟨hrest, hnodup⟩ := ih fun i hi ↦ h i (.inr hi)
      have hsplit (other : String) (hmem : other ∈ rest) :
          Name.studly other ≠ Name.studly key ∧ seen.lookup (Name.studly other) = none := by
        have hlook := (hrest other hmem).2
        by_cases heq : Name.studly other = Name.studly key
        · simp [heq] at hlook
        · have hb : (Name.studly other == Name.studly key) = false := by simpa using heq
          rw [List.lookup_cons, hb] at hlook
          exact ⟨heq, hlook⟩
      refine ⟨?_, ?_⟩
      · intro other hmem
        rcases List.mem_cons.1 hmem with rfl | hmem
        · exact ⟨hid, hnew⟩
        · exact ⟨(hrest other hmem).1, (hsplit other hmem).2⟩
      · rw [List.map_cons, List.nodup_cons]
        refine ⟨?_, hnodup⟩
        intro hmem
        obtain ⟨other, hother, heq⟩ := List.mem_map.1 hmem
        exact (hsplit other hother).1 heq
    · have := h (.invalidName key) (by simp [namesFrom, hid])
      simp [Issue.level] at this

/-- If names and shapes give only warnings, what is read is checked as well. -/
theorem issues_eq {entries : List (Value × Value)} {schema : Schema} (hne : entries ≠ [])
    (hshape : ∀ i ∈ shapeChecks entries, i.level = .warning)
    (hread : Schema.ofEntries entries = .ok schema) :
    issues (.map entries) = shapeChecks entries ++ crossChecks schema := by
  have hnone : hasError (shapeChecks entries) = false := by
    rw [hasError, List.any_eq_false]
    intro i hi
    simp [hshape i hi]
  rw [issues, if_neg (by simp [hnone]), hread]
  simpa using hne

/-- A value without errors is a mapping, and what is read from it passes all checks. -/
theorem checks_of_isValid {raw : Value} (h : (validate raw).isValid) :
    ∃ entries, raw = .map entries ∧
      (∀ i ∈ shapeChecks entries, i.level = .warning) ∧
      ∀ schema, Schema.ofEntries entries = .ok schema →
        issues raw = shapeChecks entries ++ crossChecks schema ∧
          ∀ i ∈ crossChecks schema, i.level = .warning := by
  have hall : ∀ i ∈ issues raw, i.level = .warning := by
    intro i hi
    rw [ValidationReport.isValid_iff] at h
    exact h i.finding (List.mem_map.2 ⟨i, hi, rfl⟩)
  cases raw with
  | map entries =>
    have hcase : ∀ i ∈ shapeChecks entries, i.level = .warning := by
      intro i hi
      cases entries with
      | nil => simp [shapeChecks, checkNames, namesFrom, checkShapes] at hi
      | cons entry rest =>
        apply hall
        rw [issues]
        · split
          · exact hi
          · split
            · exact List.mem_append_left _ hi
            · exact hi
        · simp
    have hne : entries ≠ [] := by
      intro hnil
      subst hnil
      have hlevel := hall .emptySchema (by simp [issues])
      simp [Issue.level] at hlevel
    refine ⟨entries, rfl, hcase, ?_⟩
    intro schema hread
    have hissues := issues_eq hne hcase hread
    refine ⟨hissues, ?_⟩
    intro i hi
    apply hall
    rw [hissues]
    exact List.mem_append_right _ hi
  | _ =>
    have := hall _ (by simp [issues]; rfl)
    simp [Issue.level] at this

/-- Relations only ever give warnings. -/
theorem level_of_mem_checkRelations (schema : Schema) :
    ∀ i ∈ checkRelations schema, i.level = .warning := by
  intro i hi
  obtain ⟨e, -, hi⟩ := List.mem_flatMap.1 hi
  simp only [checkEntityRelations, List.mem_append, List.mem_filterMap] at hi
  rcases hi with ((⟨_, -, hi⟩ | ⟨_, -, hi⟩) | ⟨_, -, hi⟩) | ⟨_, -, hi⟩ <;>
    (split at hi <;> cases hi; rfl)

/-- A mapping is valid if its names and shapes give only warnings and so does what is read. -/
theorem isValid_of_checks {entries : List (Value × Value)} {schema : Schema} (hne : entries ≠ [])
    (hshape : ∀ i ∈ shapeChecks entries, i.level = .warning)
    (hread : Schema.ofEntries entries = .ok schema)
    (hcross : ∀ i ∈ crossChecks schema, i.level = .warning) :
    (validate (.map entries)).isValid = true := by
  rw [ValidationReport.isValid_iff]
  intro f hf
  obtain ⟨i, hi, rfl⟩ := List.mem_map.1 hf
  rw [issues_eq hne hshape hread, List.mem_append] at hi
  exact hi.elim (hshape i) (hcross i)

/-- A raw value that is examined at all is validated. -/
theorem eq_validate_of_examine {raw : Value} {report : ValidationReport}
    (h : examine raw = .ok report) : report = validate raw := by
  rw [examine.eq_def] at h
  split at h
  · split at h
    · cases h
    · exact (Except.ok.inj h).symm
  · exact (Except.ok.inj h).symm

end Validation

namespace Schema

/-- The schema is read from a raw value that passes validation. -/
structure Accepted (raw : Value) (schema : Schema) : Prop where
  isValid : (Validation.validate raw).isValid = true
  read : ∃ entries, raw = .map entries ∧ ofEntries entries = .ok schema

variable {raw : Value} {schema : Schema}

theorem Accepted.unique {schema' : Schema} (h : Accepted raw schema) (h' : Accepted raw schema') :
    schema' = schema := by
  obtain ⟨entries, rfl, hread⟩ := h.read
  obtain ⟨entries', heq, hread'⟩ := h'.read
  cases heq
  exact Except.ok.inj (hread'.symm.trans hread)

theorem Accepted.level (h : Accepted raw schema) :
    ∀ i ∈ Validation.crossChecks schema, i.level = .warning := by
  obtain ⟨entries, rfl, hread⟩ := h.read
  obtain ⟨entries', heq, -, hcross⟩ := Validation.checks_of_isValid h.isValid
  cases heq
  exact (hcross schema hread).2

/-- Validation reports what is found in the entities of an accepted schema. -/
theorem Accepted.mem_issues (h : Accepted raw schema) {i : Issue}
    (hi : i ∈ Validation.crossChecks schema) : i ∈ Validation.issues raw := by
  obtain ⟨entries, rfl, hread⟩ := h.read
  obtain ⟨entries', heq, -, hcross⟩ := Validation.checks_of_isValid h.isValid
  cases heq
  rw [(hcross schema hread).1]
  exact List.mem_append_right _ hi

/-- An entity is read for each raw entry, and if the keys differ each stays in its place. -/
theorem forall₂_of_ofEntries {entries : List (Value × Value)}
    (hread : ofEntries entries = .ok schema)
    (hnodup : ((entries.map Prod.fst).map Value.plain).Nodup) :
    List.Forall₂ (fun x e ↦ e.1 = x.1.plain ∧ readEntity x.2 = .ok e.2) entries schema := by
  rw [ofEntries, bind_eq_ok_iff] at hread
  obtain ⟨entities, hm, hsame⟩ := hread
  have hentities : List.Forall₂ (fun x e ↦ e.1 = x.1.plain ∧ readEntity x.2 = .ok e.2)
      entries entities := by
    refine (mapM_eq_ok_iff.1 hm).imp ?_
    rintro ⟨name, v⟩ e he
    obtain ⟨entity, hv, he⟩ := bind_eq_ok_iff.1 he
    obtain rfl := Except.ok.inj he
    exact ⟨rfl, hv⟩
  have hkeys : entities.map Prod.fst = (entries.map Prod.fst).map Value.plain := by
    rw [List.map_map]
    exact map_eq_map_of_forall₂ (hentities.flip.imp fun _ _ h ↦ h.1)
  replace hsame : Entries.ofList entities = schema := Except.ok.inj hsame
  rw [Entries.ofList_of_nodup _ (hkeys ▸ hnodup)] at hsame
  exact hsame ▸ hentities

/-- The checks on names, as they bear on the keys of the raw entries. -/
theorem Accepted.names {entries : List (Value × Value)} (h : Accepted (.map entries) schema) :
    (∀ x ∈ entries, Validation.isIdentifier x.1.plain) ∧
      (((entries.map Prod.fst).map Value.plain).map Name.studly).Nodup := by
  obtain ⟨_, heq, hshape, -⟩ := Validation.checks_of_isValid h.isValid
  cases heq
  obtain ⟨hid, hnodup⟩ := Validation.namesFrom_spec ((entries.map Prod.fst).map Value.plain)
    fun i hi ↦ hshape i (List.mem_append_left _ hi)
  exact ⟨fun x hx ↦ (hid _ (List.mem_map_of_mem (List.mem_map_of_mem hx))).1, hnodup⟩

/-- Every raw entry of an accepted schema has its definition, in the order of the file. -/
theorem Accepted.forall₂_entries {entries : List (Value × Value)}
    (h : Accepted (.map entries) schema) :
    List.Forall₂ (fun x e ↦ e.1 = x.1.plain ∧ readEntity x.2 = .ok e.2) entries schema := by
  obtain ⟨_, heq, hread⟩ := h.read
  cases heq
  exact forall₂_of_ofEntries hread h.names.2.of_map

/-- The checks on names, as they bear on the keys of the schema. -/
theorem Accepted.keys (h : Accepted raw schema) :
    (∀ e ∈ schema, Validation.isIdentifier e.1) ∧ (schema.map fun e ↦ Name.studly e.1).Nodup := by
  obtain ⟨entries, rfl, -⟩ := h.read
  obtain ⟨hid, hnodup⟩ := h.names
  have hentries := h.forall₂_entries
  have hkeys : (schema.map fun e ↦ Name.studly e.1) =
      ((entries.map Prod.fst).map Value.plain).map Name.studly := by
    rw [List.map_map, List.map_map]
    exact map_eq_map_of_forall₂ (hentries.flip.imp fun _ _ h ↦ congrArg Name.studly h.1)
  refine ⟨fun e he ↦ ?_, hkeys ▸ hnodup⟩
  obtain ⟨x, hx, hname, -⟩ := exists_of_forall₂_of_mem_right hentries he
  rw [hname]
  exact hid x hx

/-- The keys of an accepted schema have texts, so that it can be validated at all. -/
theorem Accepted.examine (h : Accepted raw schema) :
    Validation.examine raw = .ok (Validation.validate raw) := by
  obtain ⟨entries, rfl, -⟩ := h.read
  have hno : entries.any (·.1.isOversize) = false := by
    rw [List.any_eq_false]
    intro x hx
    rw [Validation.not_isOversize_of_isIdentifier (h.names.1 x hx)]
    exact Bool.false_ne_true
  rw [Validation.examine, hno]
  rfl

theorem Accepted.nodup_keys (h : Accepted raw schema) : (schema.map Prod.fst).Nodup := by
  have := h.keys.2
  rw [show (schema.map fun e ↦ Name.studly e.1) = (schema.map Prod.fst).map Name.studly by
    simp] at this
  exact this.of_map

/-- All fields of an accepted schema can be parsed. -/
theorem Accepted.fields (h : Accepted raw schema) {e : String × Entity} (he : e ∈ schema) :
    ∃ fields, Field.parseAll e.2.fields = .ok fields := by
  refine exists_mapM_eq_ok fun f hf ↦ ?_
  rcases hparse : Field.parse f.1 f.2 with reason | field
  · have hissue : Issue.unreadableField e.1 f.1 reason ∈ Validation.checkFields schema := by
      refine List.mem_flatMap.2 ⟨e, he, List.mem_append_right _ ?_⟩
      exact List.mem_flatMap.2 ⟨f, hf, by simp [Validation.checkField, hparse]⟩
    have := h.level (.unreadableField e.1 f.1 reason) (by simp [Validation.crossChecks, hissue])
    simp [Issue.level] at this
  · exact ⟨field, hparse⟩

/-! ## Components -/

/-- The components of an accepted schema are known as they stand. -/
theorem Accepted.isKnown (h : Accepted raw schema) {e : String × Entity} (he : e ∈ schema) :
    ∀ name ∈ e.2.generate.mentioned ++ e.2.generateExcept, Component.IsKnown name := by
  have hnil : Validation.checkComponents schema = [] := by
    rw [List.eq_nil_iff_forall_not_mem]
    intro i hi
    have hlevel := Validation.level_of_mem_checkComponents schema i hi
    rw [h.level i (by simp [Validation.crossChecks, hi])] at hlevel
    cases hlevel
  exact Validation.checkComponents_eq_nil_iff.1 hnil e he

/-- The components of an entity of an accepted schema can be worked out. -/
theorem Accepted.toggles (h : Accepted raw schema) {e : String × Entity} (he : e ∈ schema) :
    ∃ t, Toggles.resolve e.2.generate e.2.generateExcept = .ok t := by
  have hknown := h.isKnown he
  apply Toggles.exists_resolve
  · intro name hname
    exact (hknown name hname).reads
  · exact Selection.complete_of_isKnown fun name hname ↦
      hknown name (List.mem_append_left _ hname)

end Schema

end Scaffold
