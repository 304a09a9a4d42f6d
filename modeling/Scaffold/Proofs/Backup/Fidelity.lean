import Scaffold.Proofs.Backup.Manifest
import Scaffold.Proofs.Disk.Effects
import Scaffold.Proofs.Entries

/-!
# What a backup writes is what is read

A manifest survives its JSON text, and with that its file: the manifest that is found in a session
directory is the one that the backup wrote there, whatever the names, paths and errors in it are and
whatever was on the disk.
-/

namespace Scaffold

/-! ## Files that have just been written -/

section Writing

open Disk DiskOp

variable {d : Disk} {content : ByteArray} {p : Path}

/-- What has been written can be read at once. -/
theorem DiskOp.ends_write_readBytes :
    Ends (write p content) d (fun _ d' ↦ d'.readBytes p = .ok content) fun _ d' ↦ d' = d := by
  rw [ends_write]
  refine ⟨fun l hl hfree ↦ ?_, fun _ _ _ ↦ rfl, fun _ _ ↦ rfl⟩
  have hne : l ≠ [] := by
    rintro rfl
    exact hfree rfl
  have hkeeps (place : Location) (hdir : d.node? place = some .dir) :
      (d.put l (.file content)).node? place = some .dir := by
    have hother : place ≠ l := by
      rintro rfl
      exact hfree hdir
    rw [node?_put _ _ _ hne, if_neg hother, hdir]
  have hlocate : (d.put l (.file content)).locate p = .ok l :=
    locate_eq_ok_of_keeps (d := d) rfl hkeeps hl
  rw [readBytes, nodeAt, hlocate]
  simp only [node?_put _ _ _ hne, if_true]

end Writing

/-! ## What a backup writes -/

/-- Wherever it starts, the computation gives a value of the given kind or fails. -/
def Gives {ε σ α : Type} (x : ExceptT ε (StateM σ) α) (kind : α → Prop) : Prop :=
  ∀ s, Ends x s (fun a _ ↦ kind a) fun _ _ ↦ True

section Giving

variable {ε σ α β : Type} {x : ExceptT ε (StateM σ) α} {f : α → ExceptT ε (StateM σ) β}
  {kind : α → Prop} {kind' : β → Prop}

theorem gives_any (x : ExceptT ε (StateM σ) α) : Gives x fun _ ↦ True := ends_any x

theorem gives_pure {a : α} (h : kind a) : Gives (pure a : ExceptT ε (StateM σ) α) kind := fun _ ↦
  (ends_pure a).2 h

theorem Gives.bind (hx : Gives x kind) (hf : ∀ a, kind a → Gives (f a) kind') :
    Gives (x >>= f) kind' := by
  intro s
  rw [ends_bind]
  exact (hx s).mono (fun a t ha ↦ hf a ha t) fun _ _ ↦ id

theorem Gives.mapM {related : α → β → Prop} {l : List α} (hf : ∀ a ∈ l, Gives (f a) (related a)) :
    Gives (l.mapM f) (List.Forall₂ related l) := by
  intro s
  have hall : Ends (l.mapM f) s (fun bs _ ↦ List.Forall₂ related l bs ∧ True) fun _ _ ↦ True :=
    Ends.mapM trivial fun a ha t _ ↦
      (hf a ha t).mono (fun _ _ hb ↦ ⟨hb, trivial⟩) fun _ _ ↦ id
  exact hall.mono (fun _ _ ↦ And.left) fun _ _ ↦ id

end Giving

namespace BackupManifest

/-- The entries of an entity name each artifact once, and they are legible. -/
def Complete (entries : List (Value × BackupEntry)) : Prop :=
  List.Forall₂ (fun a y ↦ y.1 = Value.text (Artifact.name a) ∧ y.2.Legible)
    Artifact.backupOrder entries

/-- Entities with different names whose entries are complete can be written as texts. -/
theorem exists_texts {named : List (String × List (Value × BackupEntry))}
    (hnodup : (named.map Prod.fst).Nodup) (h : ∀ x ∈ named, Complete x.2) :
    ∃ texts : List (String × List (String × BackupEntry)),
      named.map (fun x ↦ (Value.text x.1, x.2)) =
        texts.map (fun x ↦ (.text x.1, x.2.map fun y ↦ (.text y.1, y.2))) ∧
      (texts.map Prod.fst).Nodup ∧
        ∀ x ∈ texts, (x.2.map Prod.fst).Nodup ∧ ∀ y ∈ x.2, y.2.Legible := by
  refine ⟨named.map fun x ↦ (x.1, x.2.map fun y ↦ (y.1.plain, y.2)), ?_, ?_, ?_⟩
  · rw [List.map_map]
    apply List.map_congr_left
    intro x hx
    have hentries : x.2.map (fun y ↦ (Value.text y.1.plain, y.2)) = x.2 := by
      refine (List.map_congr_left fun y hy ↦ ?_).trans (List.map_id x.2)
      obtain ⟨a, -, hname, -⟩ := exists_of_forall₂_of_mem_right (h x hx) hy
      obtain ⟨name, entry⟩ := y
      obtain rfl : name = .text a.name := hname
      rfl
    simp only [Function.comp_apply, List.map_map]
    exact congrArg (Prod.mk _) hentries.symm
  · rw [List.map_map]
    exact hnodup
  · intro x hx
    obtain ⟨x, hmem, rfl⟩ := List.mem_map.1 hx
    have hkeys : x.2.map (fun y ↦ y.1.plain) = Artifact.backupOrder.map Artifact.name :=
      map_eq_map_of_forall₂ ((h x hmem).flip.imp fun y a ha ↦ by rw [ha.1]; rfl)
    constructor
    · rw [List.map_map]
      exact hkeys ▸ by decide
    · intro y hy
      obtain ⟨y, hentry, rfl⟩ := List.mem_map.1 hy
      obtain ⟨a, -, -, hlegible⟩ := exists_of_forall₂_of_mem_right (h x hmem) hentry
      exact hlegible

end BackupManifest

namespace BackupStore

open BackupManifest (Complete)

variable (b : BackupStore) (session : Path)

theorem gives_backupFile (a : Artifact) (entity : String) (relative : Path) :
    Gives (b.backupFile session a entity relative) BackupEntry.Legible := by
  unfold backupFile
  apply (gives_any _).bind
  intro there _
  split
  · exact gives_pure ⟨trivial, trivial, trivial, trivial⟩
  · apply (gives_any _).bind
    intro result _
    cases result with
    | error e => exact (gives_any _).bind fun _ _ ↦ gives_pure ⟨trivial, trivial, trivial, trivial⟩
    | ok _ => exact (gives_any _).bind fun _ _ ↦ gives_pure ⟨trivial, trivial, trivial, trivial⟩

theorem gives_backupArtifact (c : Configuration) (a : Artifact) :
    Gives (b.backupArtifact session c a) fun x ↦ x.1 = .text a.name ∧ x.2.Legible := by
  unfold backupArtifact
  cases a.fixedPath? c with
  | some p => exact (b.gives_backupFile session a c.studly p).bind fun e he ↦ gives_pure ⟨rfl, he⟩
  | none =>
    apply (gives_any _).bind
    intro names _
    cases names with
    | nil => exact gives_pure ⟨rfl, trivial, trivial, trivial, trivial⟩
    | cons file _ =>
      exact (b.gives_backupFile session a c.studly _).bind fun e he ↦ gives_pure ⟨rfl, he⟩

/-- Of every entity the entries are complete, and an entity that occurs twice is named once. -/
theorem gives_backupEntities (cs : List Configuration) :
    Gives (b.backupEntities session cs) fun entities ↦
      ∃ texts : List (String × List (String × BackupEntry)),
        entities = texts.map (fun x ↦ (.text x.1, x.2.map fun y ↦ (.text y.1, y.2))) ∧
          (texts.map Prod.fst).Nodup ∧
            ∀ x ∈ texts, (x.2.map Prod.fst).Nodup ∧ ∀ y ∈ x.2, y.2.Legible := by
  unfold backupEntities
  have hentity (c : Configuration) : Gives (b.backupEntity session c) Complete :=
    Gives.mapM fun a _ ↦ b.gives_backupArtifact session c a
  have hone (c : Configuration) (_ : c ∈ cs) :
      Gives (do return (c.studly, ← b.backupEntity session c) : Run _) fun x ↦ Complete x.2 :=
    (hentity c).bind fun entries hentries ↦ gives_pure hentries
  apply (Gives.mapM hone).bind
  intro found hfound
  apply gives_pure
  apply BackupManifest.exists_texts (Entries.nodup_keys_ofList found)
  intro x hx
  obtain ⟨c, -, hx⟩ := exists_of_forall₂_of_mem_right hfound (Entries.mem_of_mem_ofList hx)
  exact hx

theorem gives_backupShared :
    Gives (b.backupShared session) fun x ↦ Json.Written 0 x.1 := by
  unfold backupShared
  apply (gives_any _).bind
  intro there _
  split
  · exact gives_pure trivial
  · apply (gives_any _).bind
    intro result _
    cases result with
    | error e => exact (gives_any _).bind fun _ _ ↦ gives_pure trivial
    | ok _ => exact (gives_any _).bind fun _ _ ↦ gives_pure trivial

variable {b : BackupStore} {s : Scene}

/-- The manifest that a backup gives is legible, and it is what its session directory holds. -/
theorem ends_create_manifest (hshared : b.shared ≠ "") (cs : List Configuration) (moment : Moment) :
    Ends (b.create cs moment) s
      (fun m t ↦ m.Legible ∧ m.directory = (b.folder.child m.timestamp).toString ∧
        t.disk.readBytes ((b.folder.child m.timestamp).child manifestName) =
          .ok (Text.encode m.json))
      fun _ _ ↦ True := by
  unfold create
  rw [ends_bind, ends_get]
  generalize freeName (s.disk.list b.folder) moment.backupStamp = name
  have hname : (b.folder.child name).name = name := by
    rw [Path.name, Path.child, List.getLast?_concat]
    rfl
  simp only [ends_bind, hname]
  apply (gives_any _ s).mono _ fun _ _ ↦ id
  intro _ t₁ _
  apply (gives_any _ t₁).mono _ fun _ _ ↦ id
  intro _ t₂ _
  apply (b.gives_backupEntities _ cs t₂).mono _ fun _ _ ↦ id
  intro entities t₃ hentities
  apply (b.gives_backupShared _ t₃).mono _ fun _ _ ↦ id
  intro ⟨copy, existed⟩ t₄ hcopy
  rw [Run.ends_onDisk]
  apply DiskOp.ends_write_readBytes.mono
  · intro _ d hread
    rw [Run.ends_say, ends_pure]
    exact ⟨⟨hentities, hshared, hcopy⟩, rfl, hread⟩
  · intro _ _ _
    trivial

/-! ## Reading it back -/

/-- A legible manifest is what is read from its JSON text, and from a file that holds this text in the
directory that it names. So what a backup writes is what is found in its session directory, with all
entities and artifacts in their order. -/
theorem manifest_survives :
    (∀ m : BackupManifest, m.Legible →
      ∃ v, Value.ofJson m.json = .ok v ∧ BackupManifest.ofValue v m.directory = .ok m) ∧
    (∀ (b : BackupStore) (m : BackupManifest) (p : Path) (s : Scene), m.Legible →
      m.directory = p.toString →
      s.disk.readBytes (p.child manifestName) = .ok (Text.encode m.json) →
        Ends (b.manifest (some p)) s (fun found t ↦ found = some m ∧ t = s) fun _ _ ↦ False) ∧
    ∀ (b : BackupStore) (cs : List Configuration) (moment : Moment) (s : Scene), b.shared ≠ "" →
      Ends (b.create cs moment) s
        (fun m t ↦ m.Legible ∧ Ends (b.manifest (some (b.folder.child m.timestamp))) t
          (fun found u ↦ found = some m ∧ u = t) fun _ _ ↦ False)
        fun _ _ ↦ True := by
  have hread (b : BackupStore) (m : BackupManifest) (p : Path) (s : Scene) (hlegible : m.Legible)
      (hdirectory : m.directory = p.toString)
      (hfile : s.disk.readBytes (p.child manifestName) = .ok (Text.encode m.json)) :
      Ends (b.manifest (some p)) s (fun found t ↦ found = some m ∧ t = s) fun _ _ ↦ False := by
    unfold manifest
    exact (BackupManifest.ends_manifestIn hlegible hdirectory hfile).2 ⟨rfl, rfl⟩
  refine ⟨fun m hlegible ↦ ?_, hread, fun b cs moment s hshared ↦ ?_⟩
  · exact ⟨m.toValue, Json.ofJson_json hlegible.written (by decide),
      BackupManifest.ofValue_toValue hlegible.sharedPath⟩
  · apply (ends_create_manifest hshared cs moment).mono
    · intro m t ⟨hlegible, hdirectory, hfile⟩
      exact ⟨hlegible, hread b m _ t hlegible hdirectory hfile⟩
    · intro _ _ _
      trivial

def oddEntry : BackupEntry := { BackupEntry.empty with
  original := .text "C:\\é/\u2028", existed := true, error := .text "[Errno 28] \x00" }

/-- A manifest with quotes, line ends, controls and letters outside of ASCII in it. -/
def oddManifest : BackupManifest where
  timestamp := "2024\t\"01\""
  directory := "a\\b"
  entities := [(.text "\r\n", []), (.text "Bücher", [(.text "\x7f\x01", oddEntry)])]
  sharedPath := "\\"
  sharedCopy := .text ""
  sharedExisted := true

/-- A model that is backed up. -/
def modelScene : Scene := ⟨⟨[(["app"], .dir), (["app", "Models"], .dir),
  (["app", "Models", "Post.php"], .file (Text.encode "<?php"))], []⟩, [], []⟩

def modelStore : BackupStore := ⟨.here, ⟨0, ["backups"]⟩, "routes/api.php", 5⟩

def modelConfiguration : Configuration := ⟨"Post", "Post", [], [], [], Toggles.default, [], []⟩

theorem oddManifest_survives :
    (oddManifest.Legible ∧ ∃ v, Value.ofJson oddManifest.json = .ok v ∧
      BackupManifest.ofValue v oddManifest.directory = .ok oddManifest) ∧
    ∃ m t, (modelStore.create [modelConfiguration] ⟨⟨2024, 1, 1⟩, 0, 0, 0⟩).run.run modelScene =
        (.ok m, t) ∧ m.fileCount = 1 ∧
      Ends (modelStore.manifest (some (modelStore.folder.child m.timestamp))) t
        (fun found u ↦ found = some m ∧ u = t) fun _ _ ↦ False := by
  have hlegible : oddManifest.Legible := by
    refine ⟨⟨[("\r\n", []), ("Bücher", [("\x7f\x01", oddEntry)])], rfl, by decide, ?_⟩, by decide,
      trivial⟩
    intro x hx
    simp only [List.mem_cons, List.not_mem_nil, or_false] at hx
    rcases hx with rfl | rfl
    · exact ⟨List.nodup_nil, by simp⟩
    · refine ⟨List.nodup_singleton _, ?_⟩
      intro y hy
      rw [List.mem_singleton.1 hy]
      exact ⟨trivial, trivial, trivial, trivial⟩
  refine ⟨⟨hlegible, manifest_survives.1 oddManifest hlegible⟩, ?_⟩
  obtain ⟨m, t, hrun, hcount⟩ := exists_run_of_passes
    (modelStore.create [modelConfiguration] ⟨⟨2024, 1, 1⟩, 0, 0, 0⟩) modelScene
    (fun m _ ↦ m.fileCount == 1) (by decide +kernel)
  have hends := manifest_survives.2.2 modelStore [modelConfiguration] ⟨⟨2024, 1, 1⟩, 0, 0, 0⟩
    modelScene (by decide)
  exact ⟨m, t, hrun, beq_iff_eq.1 hcount, ((ends_of_run_ok hrun).1 hends).2⟩

end BackupStore

end Scaffold
