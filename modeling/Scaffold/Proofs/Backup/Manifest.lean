import Scaffold.Backup.Store
import Scaffold.Proofs.Disk.Changes
import Scaffold.Proofs.Run.Rules
import Scaffold.Proofs.Value.Json

/-!
# Manifests in files

A manifest that a backup writes is read back from its file as it was, so a rollback works with
what the backup knew.
-/

namespace Scaffold

/-- The entry holds nothing but texts, truth values and null. -/
structure BackupEntry.Legible (e : BackupEntry) : Prop where
  original : Json.Written 0 e.original
  copy : Json.Written 0 e.copy
  error : Json.Written 0 e.error
  pattern : Json.Written 0 e.pattern

theorem BackupEntry.ofValue_toValue (e : BackupEntry) : BackupEntry.ofValue e.toValue = .ok e := by
  obtain ⟨original, copy, backedUp, existed, error, pattern⟩ := e
  cases backedUp <;> cases existed <;> rfl

theorem BackupEntry.Legible.written {e : BackupEntry} (h : e.Legible) : Json.Written 1 e.toValue := by
  refine ⟨_, rfl, by simp, fun x hx ↦ ?_⟩
  simp only [List.mem_cons, List.not_mem_nil, or_false] at hx
  rcases hx with rfl | rfl | rfl | rfl | rfl | rfl
  · exact h.original
  · exact h.copy
  · trivial
  · trivial
  · exact h.error
  · exact h.pattern

namespace BackupManifest

/-- Every entity and every artifact is named once, all entries are legible, and the route file has
a path. -/
structure Legible (m : BackupManifest) : Prop where
  entities : ∃ named : List (String × List (String × BackupEntry)),
    m.entities = named.map (fun x ↦ (.text x.1, x.2.map fun y ↦ (.text y.1, y.2))) ∧
      (named.map Prod.fst).Nodup ∧
        ∀ x ∈ named, (x.2.map Prod.fst).Nodup ∧ ∀ y ∈ x.2, y.2.Legible
  sharedPath : m.sharedPath ≠ ""
  sharedCopy : Json.Written 0 m.sharedCopy

variable {m : BackupManifest}

theorem Legible.written (h : m.Legible) : Json.Written 4 m.toValue := by
  obtain ⟨named, hnamed, hnodup, hentries⟩ := h.entities
  refine ⟨_, rfl, by simp, fun x hx ↦ ?_⟩
  simp only [List.mem_cons, List.not_mem_nil, or_false] at hx
  rcases hx with rfl | rfl | rfl | rfl | rfl
  · trivial
  · refine ⟨named.map fun x ↦ (x.1, .map (x.2.map fun y ↦ (.text y.1, y.2.toValue))), ?_, ?_, ?_⟩
    · simp [hnamed]
    · simpa [Function.comp_def] using hnodup
    · intro x hx
      obtain ⟨entity, hentity, rfl⟩ := List.mem_map.1 hx
      refine ⟨entity.2.map fun y ↦ (y.1, y.2.toValue), by simp, ?_, fun y hy ↦ ?_⟩
      · simpa [Function.comp_def] using (hentries entity hentity).1
      · obtain ⟨entry, hentry, rfl⟩ := List.mem_map.1 hy
        exact ((hentries entity hentity).2 entry hentry).written
  · trivial
  · exact h.sharedCopy.of_zero 3
  · trivial

theorem readMap_map {α : Type} {read : Value → Except ManifestFault α} {write : α → Value}
    (h : ∀ a, read (write a) = .ok a) (entries : List (Value × α)) :
    readMap read (.map (entries.map fun e ↦ (e.1, write e.2))) = .ok entries := by
  rw [readMap, mapM_eq_ok_iff, List.forall₂_map_left_iff, List.forall₂_same]
  intro e _
  simp only [h]
  rfl

/-- A manifest is read as it was written. -/
theorem ofValue_toValue (hshared : m.sharedPath ≠ "") :
    BackupManifest.ofValue m.toValue m.directory = .ok m := by
  obtain ⟨timestamp, directory, entities, sharedPath, sharedCopy, sharedExisted⟩ := m
  have hentries : readMap (readMap BackupEntry.ofValue)
      (.map (entities.map fun x ↦ (x.1, .map (x.2.map fun y ↦ (y.1, y.2.toValue))))) =
        .ok entities := by
    have hone (es : List (Value × BackupEntry)) :
        readMap BackupEntry.ofValue (.map (es.map fun y ↦ (y.1, y.2.toValue))) = .ok es :=
      readMap_map BackupEntry.ofValue_toValue es
    exact readMap_map hone entities
  have hpath : (Value.text sharedPath).isFalsy = false := by simpa [Value.isFalsy] using hshared
  have hexisted : (!(Value.bool sharedExisted).isFalsy) = sharedExisted := by
    simp [Value.isFalsy]
  rw [toValue, Value.ofPairs, ofValue]
  simp only [Value.lookup?, Value.sameKey, List.map_cons, List.map_nil, List.find?_cons,
    String.reduceBEq, Option.map_some, Option.getD_some, hpath, hexisted, Value.plain]
  -- An empty mapping is not looked into, but it would be read as no entities as well.
  split
  · next h =>
    obtain rfl : entities = [] := by simpa [Value.isFalsy] using h
    rfl
  · rw [hentries]
    rfl

/-! ## Reading from a session -/

/-- A manifest that lies in a session directory is what is read there. -/
theorem ends_manifestIn {s : Scene} {session : Path} {good : Option BackupManifest → Scene → Prop}
    {bad : Failure → Scene → Prop} (hm : m.Legible) (hdirectory : m.directory = session.toString)
    (hfile : s.disk.readBytes (session.child BackupStore.manifestName) =
      .ok (Text.encode m.json)) :
    Ends (BackupStore.manifestIn session) s good bad ↔ good (some m) s := by
  have hreadText : s.disk.readText (session.child BackupStore.manifestName) = .ok m.json := by
    rw [Disk.readText, hfile, BackupManifest.json]
    simp only [Json.decodeLines_json hm.written]
  have hjson : Value.ofJson m.json = .ok m.toValue :=
    Json.ofJson_json hm.written (by decide)
  have hvalue := ofValue_toValue hm.sharedPath
  rw [hdirectory] at hvalue
  obtain ⟨es, hes⟩ : ∃ es, m.toValue = .map es := ⟨_, rfl⟩
  rw [hes] at hjson hvalue
  rw [BackupStore.manifestIn, ends_bind, Run.ends_query_of_ok (Disk.isFile_of_readBytes hfile)]
  simp only [Bool.not_true, Bool.false_eq_true, if_false]
  rw [ends_bind, Run.ends_attempt, Run.ends_readText_of_ok hreadText]
  simp only [hjson, hvalue]
  rw [Run.ends_lift]
  simp [bind, Except.bind, pure, Except.pure]

end BackupManifest

end Scaffold
