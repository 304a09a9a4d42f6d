import Scaffold.Proofs.Backup.Series

/-!
# Cleaning up

A clean-up deletes sessions one after the other. Each is gone with all that was in it, and nothing
else is, as long as no way to the directory of the backups leads through a session.
-/

namespace Scaffold

variable {ε σ α : Type}

/-- A filter whose tests leave the state as it is keeps what passes them. -/
theorem ends_filterM {f : α → ExceptT ε (StateM σ) Bool} {p : α → Bool} {l : List α} {s : σ}
    {good : List α → σ → Prop} {bad : ε → σ → Prop}
    (h : ∀ a ∈ l, ∀ good bad, Ends (f a) s good bad ↔ good (p a) s) :
    Ends (l.filterM f) s good bad ↔ good (l.filter p) s := by
  suffices haux : ∀ acc, ∀ good : List α → σ → Prop,
      Ends (l.filterAuxM f acc) s good bad ↔ good ((l.filter p).reverse ++ acc) s by
    rw [List.filterM, ends_bind, haux]
    simp
  induction l with
  | nil => simp [List.filterAuxM]
  | cons a rest ih =>
    intro acc good
    rw [List.filterAuxM, ends_bind, h a (by simp), ih fun a' ha' ↦ h a' (by simp [ha'])]
    cases hp : p a <;> simp [hp]

namespace Disk

variable {d d' : Disk} {place l : Location} {names : List String}

theorem node?_eraseTree_of_ne (hne : place ≠ []) :
    (d.eraseTree place).node? l = if place <+: l then none else d.node? l := by
  rcases eq_or_ne l [] with rfl | hl
  · simp [hne]
  · rw [node?_eraseTree _ _ hl]
    simp only [List.isPrefixOf_iff_prefix]

theorem WellFormed.eraseTree (hwf : d.WellFormed) (hne : place ≠ []) (hcwd : ¬place <+: d.cwd) :
    (d.eraseTree place).WellFormed := by
  refine ⟨fun q name n hn ↦ ?_, ?_⟩
  · rw [node?_eraseTree_of_ne hne] at hn ⊢
    split at hn
    · cases hn
    · next hnot =>
      obtain ⟨hdir, hname⟩ := hwf.parent _ _ _ hn
      rw [if_neg fun hpre ↦ hnot (hpre.trans (List.prefix_append _ _))]
      exact ⟨hdir, hname⟩
  · rw [show (d.eraseTree place).cwd = d.cwd from rfl, node?_eraseTree_of_ne hne, if_neg hcwd,
      hwf.cwd]

/-- What bears one of the names at the place is gone, with all below it, and all else is as it was. -/
def Pruned (place : Location) (names : List String) (d d' : Disk) : Prop :=
  ∀ l, d'.node? l = if ∃ name ∈ names, place ++ [name] <+: l then none else d.node? l

theorem pruned_nil_iff : Pruned place [] d d' ↔ ∀ l, d'.node? l = d.node? l := by
  simp [Pruned]

/-- One name goes, then the others. -/
theorem Pruned.cons {name : String} (h : Pruned place names (d.eraseTree (place ++ [name])) d') :
    Pruned place (name :: names) d d' := by
  intro l
  rw [h l, node?_eraseTree_of_ne (by simp)]
  simp only [List.mem_cons, exists_eq_or_imp]
  by_cases hpre : place ++ [name] <+: l
  · simp [hpre]
  · simp only [hpre, if_false, false_or]

/-- A short path without steps upwards leads to a directory exactly if one is at its location. -/
theorem WellFormed.isDir_of_short (hwf : d.WellFormed) {p : Path}
    (hshort : ∀ part ∈ p.parts, part ≠ ".." ∧ isTooLong part = false)
    (hfault : pathFault? p = none) : d.isDir p = .ok (d.node? (d.resolve p) = some .dir) := by
  have hanchor : d.Anchored p := anchoredFrom_of_plain _ _ fun hup ↦ (hshort _ hup).1 rfl
  have hanswer := (hwf.holds_cases hanchor (· == .dir)).resolve_right fun hlong ↦
    not_refuses_of_short hfault (fun part hpart ↦ (hshort part hpart).2) hlong.2
  rw [isDir, hanswer]
  cases d.node? (d.resolve p) <;> simp [beq_eq_decide]

end Disk

theorem DiskOp.ends_removeTree_of_locate {d : Disk} {p : Path} {l : Location}
    {good : Unit → Disk → Prop} {bad : DiskError → Disk → Prop} (hlocate : d.locate p = .ok l)
    (hsome : (d.node? l).isSome) :
    Ends (removeTree p) d good bad ↔ good () (d.eraseTree l) := by
  obtain ⟨n, hn⟩ := Option.isSome_iff_exists.1 hsome
  rw [removeTree, ends_bind, ends_locate]
  simp [hlocate, hn]

namespace BackupStore

open Disk DiskOp

variable {b : BackupStore} {s : Scene} {d d₀ : Disk} {names : List String} {keep : Option ℤ}

/-! ## Sessions -/

/-- The names of the directories at a place, the last name first. -/
def sessionNames (d : Disk) (place : Location) : List String :=
  ((d.namesIn place).filter fun name ↦ d.node? (place ++ [name]) = some .dir).mergeSort fun x y ↦ y ≤ x

theorem mem_sessionNames {place : Location} {name : String} :
    name ∈ sessionNames d place ↔ d.node? (place ++ [name]) = some .dir := by
  rw [sessionNames, List.mem_mergeSort, List.mem_filter, decide_eq_true_eq, mem_namesIn,
    and_iff_right_iff_imp]
  intro h
  rw [h]
  rfl

theorem pairwise_mergeSort_ge (l : List String) :
    (l.mergeSort fun x y ↦ y ≤ x).Pairwise fun x y ↦ y ≤ x := by
  have htrans (x y z : String) (hxy : decide (y ≤ x) = true) (hyz : decide (z ≤ y) = true) :
      decide (z ≤ x) = true := by
    simpa using (of_decide_eq_true hyz).trans (of_decide_eq_true hxy)
  have htotal (x y : String) : (decide (y ≤ x) || decide (x ≤ y)) = true := by
    simpa using le_total y x
  simpa using List.pairwise_mergeSort htrans htotal l

/-- Where no name is written down twice, the names go strictly downwards. -/
theorem pairwise_sessionNames {place : Location} (h : (d.namesIn place).Nodup) :
    (sessionNames d place).Pairwise fun x y ↦ y < x := by
  have hnodup : (sessionNames d place).Nodup :=
    (List.mergeSort_perm _ _).nodup_iff.2 (h.filter _)
  exact ((pairwise_mergeSort_ge _).and hnodup).imp fun ⟨hle, hne⟩ ↦ lt_of_le_of_ne hle hne.symm

/-- The sessions in a directory that a short path without steps upwards leads to. -/
theorem ends_sessions_of_short (hwf : s.disk.WellFormed)
    (hshort : ∀ part ∈ b.folder.parts, part ≠ ".." ∧ isTooLong part = false)
    (hfault : ∀ name, Nameable name → pathFault? (b.folder.child name) = none)
    (hdots : ".." ∉ s.disk.namesIn (s.disk.resolve b.folder))
    {good : List Path → Scene → Prop} {bad : Failure → Scene → Prop} :
    Ends b.sessions s good bad ↔
      good ((sessionNames s.disk (s.disk.resolve b.folder)).map b.folder.child) s := by
  have hroot : pathFault? b.folder = none := pathFault?_of_append (hfault "a" (by decide))
  rw [sessions, ends_bind, Run.ends_query_of_ok (hwf.isDir_of_short hshort hroot)]
  by_cases hdir : s.disk.node? (s.disk.resolve b.folder) = some .dir
  · simp only [hdir, decide_true, Bool.not_true, Bool.false_eq_true, if_false]
    have hlist : s.disk.list b.folder = s.disk.namesIn (s.disk.resolve b.folder) := by
      have hanchor := anchoredFrom_of_plain s.disk (s.disk.start b.folder) fun hup ↦ (hshort _ hup).1 rfl
      rw [Disk.list, (isDir_eq_true_iff.1 (hwf.isDir_of_node? hanchor hroot hdir)).1]
    rw [ends_bind, ends_get, hlist, ends_bind, ends_filterM fun name hname good bad ↦ ?_, ends_pure]
    · rfl
    · have hne : name ≠ ".." := by
        rintro rfl
        exact hdots hname
      have hchild := hwf.nameable_of_isSome (mem_namesIn.1 hname) name (by simp)
      rw [Run.ends_query_of_ok (hwf.isDir_of_short (p := b.folder.child name)
        (List.forall_mem_append.2 ⟨hshort, by simpa using ⟨hne, hchild.short⟩⟩) (hfault name hchild))]
      rw [show s.disk.resolve (b.folder.child name) = s.disk.resolve b.folder ++ [name] from
        resolve_append _ _ _ (by simpa using hne.symm)]
  · have hnone : sessionNames s.disk (s.disk.resolve b.folder) = [] := by
      refine List.eq_nil_iff_forall_not_mem.2 fun name hname ↦ hdir ?_
      exact (hwf.parent _ _ _ (mem_sessionNames.1 hname)).1
    simp [hdir, hnone, ends_pure]

theorem ends_info_timestamp (p : Path) :
    Ends (info p) s (fun i _ ↦ i.timestamp = p.name) fun _ _ ↦ True := by
  rw [info]
  refine (ends_any _ _).bind fun manifest t _ ↦ (ends_any _ _).bind fun hasManifest u _ ↦ ?_
  exact (ends_any _ _).bind fun size v _ ↦ (ends_pure _).2 rfl

/-- The listing of the sessions follows their order. -/
theorem ends_list_timestamps
    (hsessions : ∀ good bad, Ends b.sessions s good bad ↔ good (names.map b.folder.child) s) :
    Ends b.list s (fun infos _ ↦ infos.map (·.timestamp) = names) fun _ _ ↦ True := by
  rw [BackupStore.list, ends_bind, hsessions]
  have hends : Ends ((names.map b.folder.child).mapM info) s
      (fun infos _ ↦ List.Forall₂ (fun p i ↦ BackupInfo.timestamp i = p.name)
        (names.map b.folder.child) infos ∧ True) fun _ _ ↦ True :=
    Ends.mapM trivial fun p _ t _ ↦ (ends_info_timestamp p).mono (fun _ _ h ↦ ⟨h, trivial⟩) fun _ _ ↦ id
  refine hends.mono (fun infos _ h ↦ ?_) fun _ _ ↦ id
  rw [map_eq_map_of_forall₂ h.1.flip, List.map_map]
  refine (List.map_congr_left fun name _ ↦ ?_).trans (List.map_id _)
  simp [Path.name, Path.child]

/-! ## Deleting -/

/-- What can be deleted among the sessions: it is there, and neither the working directory nor a
step of the way to the sessions is in it. -/
structure Removable (b : BackupStore) (d₀ d : Disk) (name : String) : Prop where
  ne : name ≠ ".."
  fault : pathFault? (b.folder.child name) = none
  isSome : (d.node? (d₀.resolve b.folder ++ [name])).isSome
  cwd : ¬d₀.resolve b.folder ++ [name] <+: d₀.cwd
  way : ∀ q, q <+: b.folder.parts → d₀.node? (d₀.resolve ⟨b.folder.slashes, q⟩) = some .dir →
    ¬d₀.resolve b.folder ++ [name] <+: d₀.resolve ⟨b.folder.slashes, q⟩

namespace Reaches

protected theorem refl (h : d.WellFormed) : b.Reaches d d := ⟨h, rfl, fun _ _ ↦ id⟩

variable (hanchored : d₀.Anchored b.folder) (h : b.Reaches d₀ s.disk) (hnodup : names.Nodup)

include hanchored h hnodup

/-- Sessions are deleted one after the other, with all that is in them. -/
theorem ends_removeAll (hnames : ∀ name ∈ names, b.Removable d₀ s.disk name) :
    Ends (forIn (names.map b.folder.child) PUnit.unit fun p (_ : PUnit) ↦ do
        Run.onDisk (DiskOp.removeTree p)
        Run.say (LogLine.info "backup" s!"Deleted old backup: {p.name}")
        pure (ForInStep.yield PUnit.unit)) s
      (fun _ t ↦ Pruned (d₀.resolve b.folder) names s.disk t.disk) fun _ _ ↦ False := by
  induction names generalizing s with
  | nil => simp [ends_pure, pruned_nil_iff]
  | cons name rest ih =>
    have hname := hnames name (by simp)
    obtain ⟨hnew, hnodup⟩ := List.nodup_cons.1 hnodup
    have hplace : d₀.resolve b.folder ++ [name] ≠ [] := by simp
    have hlocate : s.disk.locate (b.folder.child name) = .ok (d₀.resolve b.folder ++ [name]) :=
      h.locate_eq hanchored (by simpa using hname.ne.symm) hname.fault hname.isSome
    rw [List.map_cons, List.forIn_cons, ends_bind, ends_bind, Run.ends_onDisk,
      ends_removeTree_of_locate hlocate hname.isSome, ends_bind, Run.ends_say, ends_pure]
    simp only
    have hreaches : b.Reaches d₀ (s.disk.eraseTree (d₀.resolve b.folder ++ [name])) := by
      refine ⟨h.wellFormed.eraseTree hplace (h.cwd ▸ hname.cwd), h.cwd, fun q hq hdir ↦ ?_⟩
      rw [node?_eraseTree_of_ne hplace, if_neg (hname.way q hq hdir)]
      exact h.way q hq hdir
    refine (ih hreaches hnodup fun other hother ↦ ?_).mono (fun _ t ↦ .cons) fun _ _ ↦ id
    have hother' := hnames other (by simp [hother])
    refine { hother' with isSome := ?_ }
    rw [node?_eraseTree_of_ne hplace, if_neg]
    · exact hother'.isSome
    · rw [append_singleton_prefix_iff]
      rintro rfl
      exact hnew hother

/-- A clean-up keeps the first of the listed sessions and deletes the others. -/
theorem ends_cleanup (hkeep : 1 ≤ keep.getD b.keep)
    (hsessions : ∀ good bad, Ends b.sessions s good bad ↔ good (names.map b.folder.child) s)
    (hnames : ∀ name ∈ names.drop (keep.getD b.keep).toNat, b.Removable d₀ s.disk name) :
    Ends (b.cleanup keep) s
      (fun n t ↦ n = names.length - (keep.getD b.keep).toNat ∧
        Pruned (d₀.resolve b.folder) (names.drop (keep.getD b.keep).toNat) s.disk t.disk)
      fun _ _ ↦ False := by
  rw [cleanup, if_neg (by simpa using hkeep), ends_bind, hsessions, ← List.map_drop]
  simp only
  rw [ends_bind]
  have hdrop := hnodup.sublist (List.drop_sublist (keep.getD b.keep).toNat names)
  refine (ends_removeAll hanchored h hdrop hnames).mono ?_ fun _ _ ↦ id
  intro _ t ht
  rw [ends_pure]
  exact ⟨by simp, ht⟩

end Reaches

/-- A clean-up that would keep nothing is refused. -/
theorem ends_cleanup_of_lt (hkeep : keep.getD b.keep < 1) {good : ℕ → Scene → Prop}
    {bad : Failure → Scene → Prop} : Ends (b.cleanup keep) s good bad ↔ bad .keepsNothing s := by
  rw [cleanup, if_pos hkeep, ends_bind, ends_throw]

end BackupStore

end Scaffold
