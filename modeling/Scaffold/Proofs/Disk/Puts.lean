import Scaffold.Proofs.Disk.Effects
import Scaffold.Proofs.Run.Rules

/-!
# Operations that only put

Copies and new directories take nothing away from a disk: all that they do is to put something at
a location. What every put keeps they keep, whether or not they succeed.
-/

namespace Scaffold

variable {ε σ α β : Type}

/-- The computation keeps an invariant, however it ends. -/
def Preserves (inv : σ → Prop) (x : ExceptT ε (StateM σ) α) : Prop :=
  ∀ s, inv s → Ends x s (fun _ t ↦ inv t) fun _ t ↦ inv t

namespace Preserves

variable {inv : σ → Prop} {x : ExceptT ε (StateM σ) α}

protected theorem pure (a : α) : Preserves inv (pure a : ExceptT ε (StateM σ) α) :=
  fun _ hs ↦ (ends_pure a).2 hs

protected theorem throw (e : ε) : Preserves inv (throw e : ExceptT ε (StateM σ) α) :=
  fun _ hs ↦ (ends_throw e).2 hs

theorem bind {f : α → ExceptT ε (StateM σ) β} (hx : Preserves inv x) (hf : ∀ a, Preserves inv (f a)) :
    Preserves inv (x >>= f) := fun s hs ↦
  (ends_bind x f).2 ((hx s hs).mono (fun a t ht ↦ hf a t ht) fun _ _ ↦ id)

/-- What is done with the state may depend on it. -/
theorem bind_get {f : σ → ExceptT ε (StateM σ) α} (hf : ∀ a, Preserves inv (f a)) :
    Preserves inv (get >>= f) := fun s hs ↦ (ends_bind get f).2 (ends_get.2 (hf s s hs))

theorem mapM {l : List β} {f : β → ExceptT ε (StateM σ) α} (hf : ∀ b ∈ l, Preserves inv (f b)) :
    Preserves inv (l.mapM f) := by
  intro s hs
  have hends : Ends (l.mapM f) s (fun as t ↦ List.Forall₂ (fun _ _ ↦ True) l as ∧ inv t)
      fun _ t ↦ inv t :=
    Ends.mapM hs fun b hb t ht ↦ (hf b hb t ht).mono (fun _ _ hu ↦ ⟨trivial, hu⟩) fun _ _ ↦ id
  exact hends.mono (fun _ _ ↦ And.right) fun _ _ ↦ id

end Preserves

/-! ## Operations on disks -/

namespace DiskOp

variable {inv : Disk → Prop}

theorem preserves_ask (query : Disk → Except DiskError α) : Preserves inv (ask query) := fun _ hd ↦
  (ends_ask query).2 ⟨fun _ _ ↦ hd, fun _ _ ↦ hd⟩

variable (hput : ∀ d place n, inv d → inv (d.put place n))

include hput

theorem preserves_makeDir (p : Path) : Preserves inv (makeDir p) := fun _ hd ↦
  ends_makeDir.2 ⟨fun _ _ _ ↦ hput _ _ _ hd, fun _ _ _ ↦ hd, fun _ _ ↦ hd⟩

theorem preserves_write (p : Path) (content : ByteArray) : Preserves inv (write p content) :=
  fun _ hd ↦ ends_write.2 ⟨fun _ _ _ ↦ hput _ _ _ hd, fun _ _ _ ↦ hd, fun _ _ ↦ hd⟩

theorem preserves_makeDirsAlong (slashes : ℕ) (rest done : List String) :
    Preserves inv (makeDirsAlong slashes done rest) := by
  induction rest generalizing done with
  | nil => exact .pure _
  | cons part rest ih =>
    refine .bind (preserves_ask _) fun there ↦ ?_
    cases there with
    | true => exact ih _
    | false => exact .bind (preserves_makeDir hput _) fun _ ↦ ih _

theorem preserves_makeDirs (p : Path) : Preserves inv (makeDirs p) := fun d hd ↦
  ends_makeDirs.2 ⟨fun _ _ ↦ hd, fun _ _ ↦ hd, fun _ _ ↦ preserves_makeDirsAlong hput _ _ _ d hd⟩

theorem preserves_makeNewDir (p : Path) : Preserves inv (makeNewDir p) :=
  .bind (preserves_makeDirs hput _) fun _ ↦ preserves_makeDir hput _

theorem preserves_copyFile (source target : Path) : Preserves inv (copyFile source target) := by
  refine .bind (preserves_makeDirs hput _) fun _ ↦ .bind_get fun d ↦ ?_
  have hrest (place : Path) : Preserves inv (ask (·.readBytes source) >>= write place) :=
    .bind (preserves_ask _) fun _ ↦ preserves_write hput _ _
  dsimp only
  split
  · split
    · exact .bind (.throw _) fun _ ↦ hrest _
    · exact hrest _
  · exact hrest _

end DiskOp

/-! ## Runs -/

namespace Run

variable {inv : Disk → Prop}

/-- The run keeps an invariant of the disk. -/
abbrev PreservesDisk (inv : Disk → Prop) (x : Run α) : Prop :=
  Preserves (fun s : Scene ↦ inv s.disk) x

theorem preserves_query (question : Disk → Except DiskError α) : PreservesDisk inv (query question) :=
  fun _ hs ↦ (ends_query question).2 ⟨fun _ _ ↦ hs, fun _ _ ↦ hs⟩

theorem preserves_say (line : LogLine) : PreservesDisk inv (say line) :=
  fun _ hs ↦ (ends_say line).2 hs

theorem preserves_onDisk {op : DiskOp α} (hop : Preserves inv op) : PreservesDisk inv (onDisk op) :=
  fun s hs ↦ (ends_onDisk op).2 (hop s.disk hs)

theorem preserves_attempt {survives : Failure → Bool} {part : Run α} (hpart : PreservesDisk inv part) :
    PreservesDisk inv (attempt survives part) := fun s hs ↦
  (ends_attempt survives part).2 ((hpart s hs).mono (fun _ _ ↦ id) fun _ _ ht ↦ ⟨fun _ ↦ ht, fun _ ↦ ht⟩)

end Run

/-! ## Listings -/

namespace Disk

variable {d : Disk} {place : Location}

/-- The last name of a location in a directory. -/
def nameIn (place l : Location) : Option String :=
  match l.getLast? with
  | some name => if l.dropLast == place then some name else none
  | none => none

theorem namesIn_eq (d : Disk) (place : Location) :
    d.namesIn place = (d.nodes.map Prod.fst).filterMap (nameIn place) := by
  rw [List.filterMap_map]
  rfl

theorem eq_of_nameIn {l : Location} {name : String} (h : nameIn place l = some name) :
    l = place ++ [name] := by
  unfold nameIn at h
  split at h
  · next last hlast =>
    split at h
    · next hdrop =>
      obtain rfl := Option.some.inj h
      rw [beq_iff_eq] at hdrop
      rw [← hdrop, List.dropLast_append_getLast? _ hlast]
    · cases h
  · cases h

theorem map_fst_putNode (nodes : List (Location × Node)) (l : Location) (n : Node) :
    (putNode nodes l n).map Prod.fst =
      if (lookupNode nodes l).isSome then nodes.map Prod.fst else nodes.map Prod.fst ++ [l] := by
  induction nodes with
  | nil => rfl
  | cons e rest ih =>
    by_cases he : e.1 = l
    · simp [putNode, lookupNode, he]
    · simp only [putNode, lookupNode, he, if_false, List.map_cons, ih]
      split <;> rfl

/-- No name is listed twice because something is put. -/
theorem nodup_namesIn_put (h : (d.namesIn place).Nodup) (l : Location) (n : Node) :
    ((d.put l n).namesIn place).Nodup := by
  rw [namesIn_eq, put, map_fst_putNode]
  split
  · rwa [namesIn_eq] at h
  · next hnone =>
    rw [List.filterMap_append, ← namesIn_eq, List.nodup_append]
    refine ⟨h, ?_, fun name hname other hother ↦ ?_⟩
    · rcases hl : nameIn place l with - | name <;> simp [hl]
    · rintro rfl
      rw [List.mem_filterMap] at hother
      obtain ⟨_, hl, hother⟩ := hother
      obtain rfl := List.mem_singleton.1 hl
      obtain rfl := eq_of_nameIn hother
      rw [mem_namesIn, node?, if_neg (by simp)] at hname
      exact hnone hname

end Disk

end Scaffold
