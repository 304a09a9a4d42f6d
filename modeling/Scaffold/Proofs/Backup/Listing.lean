import Scaffold.Proofs.Backup.Pruning

/-!
# Newest first

Sessions are listed by name, the last name first. After a series of backups that is the reverse of
the order in which they were made, exactly if no second has seen more than ten of them. Then the
latest session is the last one, a rollback goes back to it, and a clean-up keeps the last ones.
-/

namespace Scaffold

namespace BackupStore

open Disk DiskOp

variable {b : BackupStore} {s s₀ : Scene} {d d' d₀ : Disk} {m : Moment} {name : String}
  {made : List (Moment × BackupManifest)}

/-! ## Sessions -/

/-- Names that have been given away are listed from the last to the first exactly if no second has
seen more than ten of them. -/
theorem mergeSort_eq_reverse_iff {l : List (Moment × String)} (h : Numbered l)
    (hcommon : ∀ x ∈ l, x.1.IsCommon) (hsorted : (l.map Prod.fst).Pairwise (·.parts ≤ ·.parts))
    {names : List String} (hperm : names.Perm (l.map Prod.snd)) :
    (names.mergeSort fun x y ↦ y ≤ x) = (l.map Prod.snd).reverse ↔
      ∀ m, (l.map Prod.fst).count m ≤ 10 := by
  rw [← h.pairwise_lt_iff hcommon hsorted]
  have hpairwise := pairwise_mergeSort_ge names
  constructor
  · intro heq
    rw [heq, List.pairwise_reverse] at hpairwise
    exact (hpairwise.and (h.nodup hcommon)).imp fun ⟨hle, hne⟩ ↦ lt_of_le_of_ne hle hne
  · intro hlt
    have hreverse : (l.map Prod.snd).reverse.Pairwise fun x y ↦ y ≤ x :=
      List.pairwise_reverse.2 (hlt.imp le_of_lt)
    exact List.Perm.eq_of_pairwise (fun _ _ _ _ hxy hyx ↦ le_antisymm hyx hxy) hpairwise hreverse
      ((List.mergeSort_perm _ _).trans (hperm.trans (List.reverse_perm _).symm))

namespace Holds

variable (hunused : b.Unused d₀) (h : b.Holds d₀ made s.disk) {x : Moment × BackupManifest}
  (hx : x ∈ made)

include hunused h hx

/-- The sessions are listed, the last name first. -/
theorem ends_sessions {good : List Path → Scene → Prop} {bad : Failure → Scene → Prop} :
    Ends b.sessions s good bad ↔
      good (((s.disk.list b.folder).mergeSort fun x y ↦ y ≤ x).map b.folder.child) s := by
  rw [sessions, ends_bind, Run.ends_query_of_ok (h.isDir_folder hunused hx)]
  simp only [Bool.not_true, Bool.false_eq_true, if_false]
  have hfilter : (s.disk.list b.folder).filter (fun _ ↦ true) = s.disk.list b.folder :=
    List.filter_eq_self.2 fun _ _ ↦ rfl
  rw [ends_bind, ends_get, ends_bind, ends_filterM fun name hname good bad ↦ ?_, hfilter, ends_pure]
  obtain ⟨y, hy, rfl⟩ := List.mem_map.1 ((h.mem_list hunused).1 hname)
  rw [Run.ends_query_of_ok (h.isDir_child hunused hy)]

omit hx in
/-- A session is described by its name and its manifest. -/
theorem ends_info (hx : x ∈ made) :
    Ends (info (b.folder.child x.2.timestamp)) s
      (fun i t ↦ t = s ∧ i.timestamp = x.2.timestamp) fun _ _ ↦ False := by
  have hkept := h.kept x hx
  have hmanifest := h.readBytes_manifest hunused hx
  have hname : (b.folder.child x.2.timestamp).name = x.2.timestamp := by
    simp [Path.name, Path.child]
  obtain ⟨size, hsize⟩ : ∃ size, s.disk.sizeBelow (b.folder.child x.2.timestamp) = .ok size := by
    rw [sizeBelow, h.isDir_child hunused hx, h.locate_child hunused hx]
    exact ⟨_, rfl⟩
  rw [info, ends_bind, BackupManifest.ends_manifestIn hkept.legible hkept.directory hmanifest]
  rw [ends_bind, Run.ends_query_of_ok (isFile_of_readBytes hmanifest), ends_bind,
    Run.ends_query_of_ok hsize, ends_pure]
  exact ⟨rfl, hname⟩

omit hx in
theorem ends_list (hx : x ∈ made) :
    Ends b.list s
      (fun infos t ↦ t = s ∧ infos.map (·.timestamp) =
        (s.disk.list b.folder).mergeSort fun x y ↦ y ≤ x) fun _ _ ↦ False := by
  rw [BackupStore.list, ends_bind, h.ends_sessions hunused hx]
  generalize hnames : (s.disk.list b.folder).mergeSort (fun x y ↦ y ≤ x) = names
  have hends : Ends ((names.map b.folder.child).mapM info) s
      (fun infos t ↦ List.Forall₂ (fun p i ↦ ∃ name, p = b.folder.child name ∧ i.timestamp = name)
        (names.map b.folder.child) infos ∧ t = s) fun _ _ ↦ False := by
    refine Ends.mapM rfl fun p hp t ht ↦ ?_
    obtain ⟨name, hname, rfl⟩ := List.mem_map.1 hp
    rw [← hnames, List.mem_mergeSort, h.mem_list hunused] at hname
    obtain ⟨y, hy, rfl⟩ := List.mem_map.1 hname
    subst ht
    exact (h.ends_info hunused hy).mono (fun i t hi ↦ ⟨⟨_, rfl, hi.2⟩, hi.1⟩) fun _ _ ↦ id
  refine hends.mono ?_ fun _ _ ↦ id
  rintro infos t ⟨hinfos, rfl⟩
  refine ⟨rfl, ?_⟩
  rw [List.forall₂_map_left_iff] at hinfos
  have htimestamps : List.Forall₂ (fun (i : BackupInfo) (name : String) ↦ i.timestamp = id name) infos
      names := by
    refine hinfos.flip.imp ?_
    rintro i name ⟨other, hchild, htimestamp⟩
    exact htimestamp.trans (child_injective hchild).symm
  simpa using map_eq_map_of_forall₂ htimestamps

end Holds

/-! ## The last session -/

/-- A rollback to no session in particular is one to the latest session. -/
theorem rollback_eq_of_latest (hname : IsSessionName name)
    (hlatest : b.latest.run.run s = (.ok (some (b.folder.child name)), s)) :
    (b.rollback "").run.run s = (b.rollback name).run.run s := by
  have hne : name ≠ "" := by
    rintro rfl
    exact absurd hname.hyphen (by decide)
  have hpath : b.folder ++ Path.ofString name = b.folder.child name := by
    rw [hname.ofString]
    rfl
  have hto : (b.rollbackTo "").run.run s = (b.rollbackTo name).run.run s := by
    rw [rollbackTo, rollbackTo, if_pos (by rfl), if_neg (by simpa using hne), hpath,
      run_bind_of_run_ok hlatest]
    rfl
  rw [rollback, rollback]
  simp only [ExceptT.run_bind, StateT.run_bind, hto]

/-! ## After a series -/

namespace Holds

variable (hunused : b.Unused s₀.disk) (h : b.Holds s₀.disk made s.disk) {last : Moment × BackupManifest}
  (hlast : last ∈ made) (hreversed : ((s.disk.list b.folder).mergeSort fun x y ↦ y ≤ x) =
    (made.map (·.2.timestamp)).reverse)

include hunused h hlast hreversed

theorem ends_sessions_of_reversed {good : List Path → Scene → Prop} {bad : Failure → Scene → Prop} :
    Ends b.sessions s good bad ↔
      good ((made.map (·.2.timestamp)).reverse.map b.folder.child) s := by
  rw [h.ends_sessions hunused hlast, hreversed]

/-- Only the last sessions stand a clean-up. -/
theorem ends_cleanup {k : ℤ} (hk : 1 ≤ k) :
    Ends (b.cleanup (some k)) s
      (fun n t ↦ n = made.length - k.toNat ∧ ∀ l, t.disk.node? l =
        if ∃ x ∈ made.take n, s.disk.resolve (b.folder.child x.2.timestamp) <+: l then none
        else s.disk.node? l) fun _ _ ↦ False := by
  generalize hfirst : made.take (made.length - k.toNat) = first
  have hsub : first.Sublist made := hfirst ▸ List.take_sublist _ _
  -- The sessions to delete are the first ones, gone through from the last of them on.
  have hold : (made.map (·.2.timestamp)).reverse.drop k.toNat =
      (first.map (·.2.timestamp)).reverse := by
    rw [List.drop_reverse, List.length_map, ← List.map_take, hfirst]
  have hnodup := h.numbered.nodup h.common
  rw [map_snd_given] at hnodup
  have hremovable : ∀ name ∈ (made.map (·.2.timestamp)).reverse.drop k.toNat,
      b.Removable s₀.disk s.disk name := by
    intro name hname
    rw [hold, List.mem_reverse, List.mem_map] at hname
    obtain ⟨x, hx, rfl⟩ := hname
    have hkept := h.kept x (hsub.subset hx)
    exact ⟨hkept.name.ne_dots, pathFault?_of_append hkept.fault, by rw [hkept.isDir]; rfl,
      hunused.not_prefix (by rw [hunused.wellFormed.cwd]; rfl),
      fun q _ hdir ↦ hunused.not_prefix (by rw [hdir]; rfl)⟩
  have hkeep : 1 ≤ (some k).getD (b.keep : ℤ) := hk
  refine (h.toReaches.ends_cleanup hunused.anchored (List.nodup_reverse.2 hnodup) hkeep
    (fun _ _ ↦ h.ends_sessions_of_reversed hunused hlast hreversed) hremovable).mono ?_
    fun _ _ ↦ id
  rintro n t ⟨hn, ht⟩
  rw [List.length_reverse, List.length_map] at hn
  refine ⟨hn, fun l ↦ ?_⟩
  have hgone := ht l
  rw [Option.getD_some, hold] at hgone
  rw [hgone, hn, Option.getD_some, hfirst]
  simp only [List.mem_reverse, List.mem_map, exists_exists_and_eq_and]
  refine if_congr (exists_congr fun x ↦ and_congr_right fun hx ↦ ?_) rfl rfl
  rw [← locate_eq_resolve (h.locate_child hunused (hsub.subset hx))]

end Holds

/-- After a series of backups the listing reverses the order in which they were made exactly if no
second has seen more than ten of them. Then the last one is the latest, a rollback to no session in
particular goes back to it, and a clean-up deletes all but the last ones. -/
theorem ends_series {settings : Settings} {last : Moment × BackupManifest}
    (hunused : (ofSettings settings).Unused s₀.disk)
    (h : (ofSettings settings).Series s₀ (made ++ [last]) s)
    (hcommon : ∀ x ∈ made ++ [last], x.1.IsCommon)
    (hsorted : ((made ++ [last]).map Prod.fst).Pairwise (·.parts ≤ ·.parts)) :
    (Ends (ofSettings settings).list s
        (fun infos t ↦ t = s ∧
          infos.map (·.timestamp) = ((made ++ [last]).map (·.2.timestamp)).reverse)
        (fun _ _ ↦ False) ↔ ∀ m, ((made ++ [last]).map Prod.fst).count m ≤ 10) ∧
    ((∀ m, ((made ++ [last]).map Prod.fst).count m ≤ 10) →
      Ends (ofSettings settings).latest s
        (fun p t ↦ t = s ∧ p = some ((ofSettings settings).folder.child last.2.timestamp))
        (fun _ _ ↦ False) ∧
      ((ofSettings settings).rollback "").run.run s =
        ((ofSettings settings).rollback last.2.timestamp).run.run s ∧
      ∀ k : ℤ, 1 ≤ k → Ends ((ofSettings settings).cleanup (some k)) s
        (fun n t ↦ n = (made ++ [last]).length - k.toNat ∧ ∀ l, t.disk.node? l =
          if ∃ x ∈ (made ++ [last]).take n,
            s.disk.resolve ((ofSettings settings).folder.child x.2.timestamp) <+: l then none
          else s.disk.node? l) fun _ _ ↦ False) := by
  have hholds := h.holds hunused (spelled_folder settings) rfl hcommon
  generalize ofSettings settings = b at *
  have hlast : last ∈ made ++ [last] := by simp
  generalize hall : made ++ [last] = all at *
  have hperm := hholds.list_perm hunused hlast
  rw [← map_fst_given] at hsorted
  have hiff := mergeSort_eq_reverse_iff hholds.numbered hholds.common hsorted
    (map_snd_given all ▸ hperm)
  rw [map_fst_given, map_snd_given] at hiff
  refine ⟨?_, fun hfew ↦ ?_⟩
  · rw [← hiff]
    have hlist := hholds.ends_list hunused hlast
    constructor
    · intro hreverse
      obtain ⟨infos, t, -, ⟨-, hnames⟩, -, hnames'⟩ :=
        ((hlist.and hreverse).mono (fun _ _ ↦ id) fun _ _ ↦ And.left).exists_run
      exact hnames.symm.trans hnames'
    · intro heq
      exact hlist.mono (fun infos t hinfos ↦ ⟨hinfos.1, hinfos.2.trans heq⟩) fun _ _ ↦ id
  · have hreversed := hiff.2 hfew
    have hlatest : Ends b.latest s
        (fun p t ↦ t = s ∧ p = some (b.folder.child last.2.timestamp)) fun _ _ ↦ False := by
      rw [latest, ends_bind, hholds.ends_sessions_of_reversed hunused hlast hreversed, ends_pure]
      simp [← hall]
    refine ⟨hlatest, ?_, fun k hk ↦ hholds.ends_cleanup hunused hlast hreversed hk⟩
    obtain ⟨p, t, hrun, rfl, rfl⟩ := hlatest.exists_run
    exact rollback_eq_of_latest (hholds.kept last hlast).name hrun

end BackupStore

namespace SmallProject

open Disk BackupStore

/-- A second after the moment. -/
def later : Moment := { moment with second := 1 }

theorem unused : backups.Unused disk := by
  refine ⟨by decide, anchoredFrom_of_plain _ _ (by decide), fun name ↦ ?_⟩
  have hplace : disk.resolve backups.folder = ["storage", "app", "backups"] := by decide
  rw [hplace]
  simp [disk, node?, lookupNode]

/-- Two backups in a second and one in the next second are listed in reverse, and the last one is
kept by a clean-up. -/
theorem create_list : ∃ first second last s,
    backups.Series scene [(moment, first), (moment, second), (later, last)] s ∧
      Ends backups.list s
        (fun infos _ ↦ infos.map (·.timestamp) =
          [last.timestamp, second.timestamp, first.timestamp])
        (fun _ _ ↦ False) ∧
      Ends (backups.cleanup (some 1)) s (fun n _ ↦ n = 2) fun _ _ ↦ False := by
  obtain ⟨memory, hbuilt⟩ := exists_memory
  have hcs : Configuration.OfSchema configurations :=
    ⟨_, _, _, memory, accepted, hbuilt, .refl _⟩
  obtain ⟨_, _, hrun, -⟩ := exists_run_of_passes (do
      let first ← backups.create configurations moment
      let second ← backups.create configurations moment
      let last ← backups.create configurations later
      return (first, second, last)) scene (fun _ _ ↦ true) (by decide +kernel)
  have hends := returns_iff_ends.1 ⟨_, _, hrun⟩
  rw [ends_bind] at hends
  obtain ⟨first, t, hfirst, hends⟩ := hends.exists_run
  rw [ends_bind] at hends
  obtain ⟨second, u, hsecond, hends⟩ := hends.exists_run
  rw [ends_bind] at hends
  obtain ⟨last, v, hlast, hends⟩ := hends.exists_run
  have hseries := ((Series.start.create hcs hfirst).create hcs hsecond).create hcs hlast
  have hfew : ∀ m, ([moment, moment, later].count m) ≤ 10 := fun m ↦
    List.count_le_length.trans (by decide)
  have hcommon : ∀ x ∈ [(moment, first), (moment, second)] ++ [(later, last)], x.1.IsCommon := by
    have hmoments : moment.IsCommon ∧ later.IsCommon := by decide
    simp [hmoments]
  have hunused : (ofSettings (settings .skip)).Unused scene.disk := unused
  obtain ⟨hlist, hkept⟩ := ends_series hunused hseries hcommon (by
    simp only [List.map_append, List.map_cons, List.map_nil]
    decide)
  refine ⟨first, second, last, v, hseries, (hlist.2 hfew).mono (fun _ _ ↦ And.right) fun _ _ ↦ id,
    ((hkept hfew).2.2 1 le_rfl).mono (fun _ _ ↦ And.left) fun _ _ ↦ id⟩

end SmallProject

end Scaffold
