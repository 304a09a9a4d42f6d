import Mathlib
import Scaffold.Proofs.Schema.Accepted

/-!
# A valid raw value can be read

A reading that fails tells a problem, so an entry without problems is an entity. Validation looks
for the problems of every entry; without errors the whole schema is read.
-/

namespace Scaffold

namespace Shape

variable {α β γ : Type}

/-- If the reading fails, it tells a problem. -/
def Tells (x : Reading α) : Prop := x ≠ .error []

theorem tells_ok (a : α) : Tells (.ok a : Reading α) := by simp [Tells]

theorem tells_miss (m : Mismatch) : Tells (miss m : Reading α) := by simp [Tells, miss]

theorem tells_error_cons (p : Problem) (ps : List Problem) :
    Tells (.error (p :: ps) : Reading α) := by simp [Tells]

theorem Tells.within {x : Reading α} (h : Tells x) (part : String) : Tells (within part x) := by
  cases x with
  | ok a => exact tells_ok a
  | error ps => cases ps <;> simp_all [Tells, Shape.within]

theorem Tells.map {x : Reading α} (h : Tells x) (f : α → β) : Tells (x.map f) := by
  cases x with
  | ok a => exact tells_ok (f a)
  | error ps => cases ps <;> simp_all [Tells, Except.map]

theorem Tells.ap {x : Reading (α → β)} {y : Reading α} (hx : Tells x) (hy : Tells y) :
    Tells (x.ap y) := by
  rcases x with ps | f <;> rcases y with qs | a
  · cases ps <;> simp_all [Tells, Reading.ap, problems]
  · cases ps <;> simp_all [Tells, Reading.ap, problems]
  · cases qs <;> simp_all [Tells, Reading.ap, problems]
  · exact tells_ok (f a)

theorem Tells.both {x : Reading α} {y : Reading β} (hx : Tells x) (hy : Tells y)
    (f : α → β → γ) : Tells (both f x y) := (hx.map f).ap hy

/-- Without problems something was read. -/
theorem Tells.exists_ok {x : Reading α} (h : Tells x) (hproblems : problems x = []) :
    ∃ a, x = .ok a := by
  cases x with
  | ok a => exact ⟨a, rfl⟩
  | error ps => exact absurd (congrArg Except.error hproblems) h

theorem Tells.also {x : Reading α} (h : Tells x) (ps : List Problem) : Tells (also ps x) := by
  rw [Shape.also]
  cases ps with
  | nil => exact h
  | cons p rest => simp [Tells]

/-! ## Values -/

theorem tells_text (v : Value) : Tells (text v) := by
  cases v <;> simp [text, Tells, miss]

theorem tells_itemsFrom {item : Value → Reading α} (hitem : ∀ v, Tells (item v)) (i : ℕ)
    (vs : List Value) : Tells (itemsFrom item i vs) := by
  induction vs generalizing i with
  | nil => exact tells_ok []
  | cons v rest ih => exact ((hitem v).within _).both (ih (i + 1)) _

theorem tells_listOf {item : Value → Reading α} (hitem : ∀ v, Tells (item v)) (v : Value) :
    Tells (listOf item v) := by
  cases v with
  | list vs => exact tells_itemsFrom hitem 0 vs
  | _ => exact tells_miss _

theorem tells_entriesOf {item : Value → Reading α} (hitem : ∀ v, Tells (item v))
    (entries : List (Value × Value)) : Tells (entriesOf item entries) := by
  induction entries with
  | nil => exact tells_ok []
  | cons e rest ih =>
    have hkey := ((tells_text e.1).within "[key]").within (keyPart e.1)
    exact (hkey.both ((hitem e.2).within _) Prod.mk).both ih _

theorem tells_mapOf {item : Value → Reading α} (hitem : ∀ v, Tells (item v)) (v : Value) :
    Tells (mapOf item v) := by
  cases v with
  | map entries => exact tells_entriesOf hitem entries
  | _ => exact tells_miss _

theorem tells_textOrTexts (one : String → α) (many : List String → α) (v : Value) :
    Tells (textOrTexts one many v) := by
  rw [textOrTexts.eq_def]
  split
  · exact tells_ok _
  · split
    · exact tells_ok _
    · exact tells_error_cons _ _

end Shape

namespace Entity

open Shape

theorem tells_readFields (v : Value) : Tells (readFields v) := by
  rw [readFields.eq_def]
  split
  · exact tells_ok _
  · split
    · exact tells_miss _
    · exact tells_ok _
  · exact tells_miss _

theorem tells_readRelations (v : Value) : Tells (readRelations v) := by
  rw [readRelations.eq_def]
  split
  · exact tells_ok _
  · refine tells_mapOf (fun v ↦ ?_) _
    rw [readTargets.eq_def]
    split
    · exact tells_ok _
    · exact tells_textOrTexts _ _ _

theorem tells_readNames (v : Value) : Tells (readNames v) := by
  rw [readNames.eq_def]
  split
  · exact tells_ok _
  · exact tells_ok _
  · exact tells_listOf tells_text _

theorem tells_readGenerate (v : Value) : Tells (readGenerate v) := by
  rw [readGenerate.eq_def]
  split
  · exact tells_ok _
  · split
    · exact tells_ok _
    · exact tells_miss _
  · split
    · exact tells_ok _
    · exact tells_ok _
    · exact tells_ok _
    · simp [Tells]

theorem tells_readKey {α : Type} {read : Value → Reading α} (hread : ∀ v, Tells (read v))
    (entries : List (Value × Value)) (key shown : String) (missing : α) :
    Tells (readKey entries key shown missing read) := by
  rw [readKey]
  split
  · exact (hread _).within _
  · exact tells_ok _

theorem tells_ofEntries (entries : List (Value × Value)) : Tells (ofEntries entries) := by
  have hunique (v : Value) : Tells (readUnique v) := tells_listOf (tells_textOrTexts _ _) v
  rw [ofEntries]
  refine Tells.also ?_ _
  refine Tells.ap ?_ (tells_readKey hunique _ _ _ _)
  refine Tells.ap ?_ (tells_readKey tells_readNames _ _ _ _)
  refine Tells.ap ?_ (tells_readKey tells_readNames _ _ _ _)
  refine Tells.ap ?_ (tells_readKey tells_readGenerate _ _ _ _)
  refine Tells.ap ?_ (tells_readKey tells_readNames _ _ _ _)
  exact (tells_readKey tells_readFields _ _ _ _).both (tells_readKey tells_readRelations _ _ _ _) _

/-- The fields that are read have different names. -/
theorem nodup_fields {entries : List (Value × Value)} {e : Entity} (h : ofEntries entries = .ok e) :
    (e.fields.map Prod.fst).Nodup := by
  have hread (v : Value) (fields : List (String × String)) (hfields : readFields v = .ok fields) :
      (fields.map Prod.fst).Nodup := by
    rw [readFields.eq_def] at hfields
    split at hfields
    · obtain rfl := Except.ok.inj hfields
      exact List.nodup_nil
    · split at hfields
      · cases hfields
      · obtain rfl := Except.ok.inj hfields
        exact Entries.nodup_keys_ofList _
    · cases hfields
  rw [ofEntries, Shape.also] at h
  split at h
  · obtain ⟨f₁, -, h₁, -, rfl⟩ := Reading.ap_eq_ok_iff.1 h
    obtain ⟨f₂, -, h₂, -, rfl⟩ := Reading.ap_eq_ok_iff.1 h₁
    obtain ⟨f₃, -, h₃, -, rfl⟩ := Reading.ap_eq_ok_iff.1 h₂
    obtain ⟨f₄, -, h₄, -, rfl⟩ := Reading.ap_eq_ok_iff.1 h₃
    obtain ⟨f₅, -, h₅, -, rfl⟩ := Reading.ap_eq_ok_iff.1 h₄
    obtain ⟨fields, -, hfields, -, rfl⟩ := both_eq_ok_iff.1 h₅
    rw [readKey] at hfields
    split at hfields
    · next v _ =>
      rcases hv : readFields v with problems | fields'
      · simp [hv, within] at hfields
      · rw [hv, within] at hfields
        obtain rfl := Except.ok.inj hfields
        exact hread v fields' hv
    · obtain rfl := Except.ok.inj hfields
      exact List.nodup_nil
  · cases h

end Entity

namespace Schema

theorem entriesOf_map (entries : List (Value × Value)) :
    entriesOf (.map entries) = .ok entries := by
  cases entries <;> rfl

/-- An entry is read by its parts. -/
theorem readEntity_eq_ok_iff {v : Value} {e : Entity} : readEntity v = .ok e ↔
    ∃ entries, entriesOf v = .ok entries ∧ Entity.ofEntries entries = .ok e := by
  rw [readEntity, bind_eq_ok_iff]
  simp only [mapError_eq_ok_iff]

end Schema

namespace Validation

/-- An entry whose shape gives no error is read. -/
theorem exists_readEntity {entries : List (Value × Value)}
    (h : ∀ i ∈ checkShapes entries, i.level = .warning) {name v : Value}
    (hmem : (name, v) ∈ entries) : ∃ e, Schema.readEntity v = .ok e := by
  have hissue (i : Issue) := fun hi ↦ h i (List.mem_flatMap.2 ⟨(name, v), hmem, hi⟩)
  have hread (entries : List (Value × Value))
      (hproblems : ∀ i ∈ (Shape.problems (Entity.ofEntries entries)).map (Issue.misshapen name),
        i.level = .warning) : ∃ e, Entity.ofEntries entries = .ok e := by
    refine (Entity.tells_ofEntries entries).exists_ok ?_
    rcases hps : Shape.problems (Entity.ofEntries entries) with - | ⟨p, ps⟩
    · rfl
    · have := hproblems (.misshapen name p) (by simp [hps])
      cases this
  cases v with
  | null =>
    obtain ⟨e, he⟩ := hread [] hissue
    exact ⟨e, Schema.readEntity_eq_ok_iff.2 ⟨[], rfl, he⟩⟩
  | map entries =>
    obtain ⟨e, he⟩ := hread entries hissue
    exact ⟨e, Schema.readEntity_eq_ok_iff.2 ⟨entries, Schema.entriesOf_map entries, he⟩⟩
  | _ =>
    have := hissue _ (List.mem_singleton_self _)
    cases this

/-- A raw value without errors holds a schema. -/
theorem exists_accepted {raw : Value} (h : (validate raw).isValid = true) :
    ∃ schema, Schema.Accepted raw schema := by
  obtain ⟨entries, rfl, hshape, -⟩ := checks_of_isValid h
  have hentities : ∀ x ∈ entries, ∃ e : String × Entity,
      (do return (x.1.plain, ← Schema.readEntity x.2) : Except EntityError (String × Entity)) =
        .ok e := by
    rintro ⟨name, v⟩ hx
    obtain ⟨e, he⟩ := exists_readEntity (fun i hi ↦ hshape i (List.mem_append_right _ hi)) hx
    exact ⟨(name.plain, e), by simp [he, bind, Except.bind, pure, Except.pure]⟩
  obtain ⟨entities, hread⟩ := exists_mapM_eq_ok hentities
  refine ⟨Entries.ofList entities, h, entries, rfl, ?_⟩
  rw [Schema.ofEntries, hread]
  rfl

end Validation

namespace Schema

theorem Accepted.nodup_fields {raw : Value} {schema : Schema} (h : Accepted raw schema)
    {e : String × Entity} (he : e ∈ schema) : (e.2.fields.map Prod.fst).Nodup := by
  obtain ⟨entries, rfl, -⟩ := h.read
  obtain ⟨x, -, -, hread⟩ := exists_of_forall₂_of_mem_right h.forall₂_entries he
  obtain ⟨read, -, hentity⟩ := readEntity_eq_ok_iff.1 hread
  exact Entity.nodup_fields hentity

end Schema

end Scaffold
