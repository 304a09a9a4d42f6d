import Scaffold.Proofs.Configuration.Building
import Scaffold.Proofs.Generation.Effect

/-!
# The turns of a run

A run generates the artifacts of its entities in turn. If it gets through, every enabled artifact
had its turn, in the order of generation, and the report tells of each; if it breaks off, it is
known where and why.
-/

namespace Scaffold

variable {g : Generator}

/-! ## Turns in a row -/

/-- The turns lead from a disk and the questions asked by then to a later disk and the questions
asked by then. -/
inductive Leads (g : Generator) : List (Turn g) → Disk → List String → Disk → List String → Prop
  | stay (d : Disk) (asked : List String) : Leads g [] d asked d asked
  | turn (x : Turn g) {rest : List (Turn g)} {d : Disk} {asked : List String}
      (hrest : Leads g rest x.after (x.asked ++ x.asks) d asked) :
      Leads g (x :: rest) x.before x.asked d asked

namespace Leads

variable {xs ys : List (Turn g)} {d d' d'' : Disk} {asked asked' asked'' : List String}

theorem single (x : Turn g) : Leads g [x] x.before x.asked x.after (x.asked ++ x.asks) :=
  .turn x (.stay _ _)

theorem append (h : Leads g xs d asked d' asked') (h' : Leads g ys d' asked' d'' asked'') :
    Leads g (xs ++ ys) d asked d'' asked'' := by
  induction h with
  | stay => exact h'
  | turn x _ ih => exact .turn x (ih h')

/-- The turns before and after one of them. -/
theorem split {x : Turn g} (h : Leads g (xs ++ x :: ys) d asked d' asked') :
    Leads g xs d asked x.before x.asked ∧ Leads g ys x.after (x.asked ++ x.asks) d' asked' := by
  induction xs generalizing d asked with
  | nil =>
    cases h with
    | turn _ hrest => exact ⟨.stay _ _, hrest⟩
  | cons first rest ih =>
    cases h with
    | turn _ hrest => exact ⟨.turn first (ih hrest).1, (ih hrest).2⟩

theorem asked_eq (h : Leads g xs d asked d' asked') : asked' = asked ++ xs.flatMap Turn.asks := by
  induction h with
  | stay => simp
  | turn x _ ih => rw [ih, List.flatMap_cons, List.append_assoc]

/-- What every turn keeps holds when each of them comes, and at the end. -/
theorem invariant (inv : Disk → Prop) (h : Leads g xs d asked d' asked') (hd : inv d)
    (hstep : ∀ x ∈ xs, inv x.before → inv x.after) : inv d' ∧ ∀ x ∈ xs, inv x.before := by
  induction h with
  | stay => exact ⟨hd, by simp⟩
  | turn x _ ih =>
    obtain ⟨hend, hall⟩ := ih (hstep x (by simp) hd) fun y hy ↦ hstep y (by simp [hy])
    exact ⟨hend, List.forall_mem_cons.2 ⟨hd, hall⟩⟩

end Leads

/-! ## Tasks in order -/

/-- The artifacts that are generated, in the order of generation. -/
def enabledArtifacts (cs : List Configuration) : List (Configuration × Artifact) :=
  cs.flatMap fun c ↦ (Artifact.enabled c.toggles).map fun a ↦ (c, a)

/-- The tasks of an entity. -/
def Configuration.tasks (c : Configuration) (related : List String) (m : Moment) : List Task :=
  (Artifact.enabled c.toggles).map fun a ↦ ⟨c, a, related, m⟩

/-- What an artifact is generated from besides its configuration: the entities that the nested
requests of its entity lead to, and a moment after the start of the run. -/
structure Task.Fits (g : Generator) (schema : Schema) (x : Task) : Prop where
  related : ∃ memory memory',
    (Resolve.related schema x.config.studly []).run.run memory = (.ok x.related, memory')
  moment : ∃ i, g.moment.plus? i = some x.moment

/-- The tasks are those of the entities, in order, the first of which counts as generated that many
seconds after the start of the run, and each of the others a second after the one before. -/
structure Plans (g : Generator) (schema : Schema) (i : Nat) (cs : List Configuration)
    (tasks : List Task) : Prop where
  enabled : tasks.map (fun x ↦ (x.config, x.artifact)) = enabledArtifacts cs
  fits : ∀ x ∈ tasks, x.Fits g schema
  moments : ∀ x ∈ tasks, ∃ k, cs[k]? = some x.config ∧ g.moment.plus? (i + k) = some x.moment

theorem Plans.nil {schema : Schema} {i : Nat} : Plans g schema i [] [] := ⟨rfl, by simp, by simp⟩

theorem Plans.append {schema : Schema} {i : Nat} {cs cs' : List Configuration}
    {tasks tasks' : List Task} (h : Plans g schema i cs tasks)
    (h' : Plans g schema (i + cs.length) cs' tasks') :
    Plans g schema i (cs ++ cs') (tasks ++ tasks') where
  enabled := by
    rw [List.map_append, h.enabled, h'.enabled, enabledArtifacts, enabledArtifacts,
      enabledArtifacts, List.flatMap_append]
  fits := List.forall_mem_append.2 ⟨h.fits, h'.fits⟩
  moments := by
    refine List.forall_mem_append.2 ⟨fun x hx ↦ ?_, fun x hx ↦ ?_⟩
    · obtain ⟨k, hk, hm⟩ := h.moments x hx
      exact ⟨k, by rw [List.getElem?_append_left (List.getElem?_eq_some_iff.1 hk).1, hk], hm⟩
    · obtain ⟨k, hk, hm⟩ := h'.moments x hx
      refine ⟨cs.length + k, ?_, by rwa [← Nat.add_assoc]⟩
      rw [List.getElem?_append_right (Nat.le_add_right _ _), Nat.add_sub_cancel_left, hk]

theorem Plans.tasks {schema : Schema} {c : Configuration} {related : List String} {m : Moment}
    {memory memory' : Memory} {i : Nat} (hm : g.moment.plus? i = some m)
    (hrelated : (Resolve.related schema c.studly []).run.run memory = (.ok related, memory')) :
    Plans g schema i [c] (c.tasks related m) where
  enabled := by simp [Configuration.tasks, enabledArtifacts, Function.comp_def]
  fits x hx := by
    obtain ⟨a, -, rfl⟩ := List.mem_map.1 hx
    exact ⟨⟨memory, memory', hrelated⟩, i, hm⟩
  moments x hx := by
    obtain ⟨a, -, rfl⟩ := List.mem_map.1 hx
    exact ⟨0, rfl, hm⟩

/-! ## Breaking off -/

/-- A run through the tasks breaks off with a failure: after the turns the path of the next artifact
cannot be worked out, or the last turn ends with it. -/
inductive Stops (g : Generator) (tasks : List Task) (e : Failure) : List (Turn g) → Disk → Prop
  | unlocated {xs : List (Turn g)} {d : Disk} {x : Task} {fault : DiskError}
      (hpre : xs.map (·.task) ++ [x] <+: tasks) (he : e = .disk fault)
      (hpath : x.pathOn g.root d = .error fault) : Stops g tasks e xs d
  | broken {xs : List (Turn g)} {x : Turn g} {d : Disk}
      (hpre : (xs ++ [x]).map (·.task) <+: tasks) (he : x.ending = .error e) :
      Stops g tasks e (xs ++ [x]) d

namespace Stops

variable {tasks more : List Task} {e : Failure} {xs ys : List (Turn g)} {d : Disk}

theorem isPrefix (h : Stops g tasks e xs d) : xs.map (·.task) <+: tasks := by
  cases h with
  | unlocated hpre => exact (List.prefix_append _ _).trans hpre
  | broken hpre => exact hpre

theorem append (h : Stops g tasks e xs d) (more : List Task) : Stops g (tasks ++ more) e xs d := by
  cases h with
  | unlocated hpre he hpath => exact .unlocated (hpre.trans (List.prefix_append _ _)) he hpath
  | broken hpre he => exact .broken (hpre.trans (List.prefix_append _ _)) he

theorem prepend (h : Stops g more e ys d) (hxs : xs.map (·.task) = tasks) :
    Stops g (tasks ++ more) e (xs ++ ys) d := by
  cases h with
  | unlocated hpre he hpath =>
    refine .unlocated ?_ he hpath
    rwa [List.map_append, hxs, List.append_assoc, List.prefix_append_right_inj]
  | broken hpre he =>
    rw [← List.append_assoc]
    refine .broken ?_ he
    rwa [List.append_assoc, List.map_append, hxs, List.prefix_append_right_inj]

end Stops

namespace Generator

variable {c : Configuration} {related : List String} {m : Moment} {r : Report}
  {written : WriteManifest} {s : Scene}

/-! ## The artifacts of an entity -/

theorem ends_generateArtifacts (as : List Artifact) :
    Ends (g.generateArtifacts c related m as r written) s
      (fun result t ↦ ∃ xs os, xs.map (·.task) = as.map (fun a ↦ ⟨c, a, related, m⟩) ∧
        Leads g xs s.disk s.asked t.disk t.asked ∧ List.Forall₂ Turn.Tells xs os ∧
          r.Adds os result.1)
      fun e t ↦ ∃ xs, Leads g xs s.disk s.asked t.disk t.asked ∧
        Stops g (as.map fun a ↦ ⟨c, a, related, m⟩) e xs t.disk := by
  induction as generalizing r written s with
  | nil => exact (ends_pure _).2 ⟨[], [], rfl, .stay _ _, .nil, .refl r⟩
  | cons a rest ih =>
    rw [generateArtifacts, ends_bind]
    refine ends_generateArtifact.mono ?_ ?_
    · rintro ⟨r₁, written₁⟩ t ⟨x, htask, hbefore, hasked, hafter, hasked', o, htells, hadds⟩
      have hx : Leads g [x] s.disk s.asked t.disk t.asked := by
        rw [hafter, hasked', ← hbefore, ← hasked]
        exact .single x
      refine ih.mono ?_ ?_
      · rintro result u ⟨xs, os, htasks, hleads, hall, hmore⟩
        exact ⟨x :: xs, o :: os, by rw [List.map_cons, htasks, htask, List.map_cons],
          hx.append hleads, .cons htells hall, hadds.trans hmore⟩
      · rintro e u ⟨xs, hleads, hstops⟩
        exact ⟨x :: xs, hx.append hleads,
          hstops.prepend (show [x].map (·.task) = [⟨c, a, related, m⟩] by simp [htask])⟩
    · rintro e t (⟨rfl, fault, he, hpath⟩ | ⟨x, htask, hbefore, hasked, hafter, hasked', he⟩)
      · exact ⟨[], .stay _ _, .unlocated (by simp) he hpath⟩
      · refine ⟨[] ++ [x], ?_, .broken (by simp [htask]) he⟩
        rw [hafter, hasked', ← hbefore, ← hasked]
        exact .single x

/-- What each artifact keeps is kept by all of them, unless the run breaks off. -/
theorem ends_generateArtifacts_of_each {inv : Report × WriteManifest → Scene → Prop}
    (heach : ∀ (a : Artifact) (x : Report × WriteManifest) (t : Scene), inv x t →
      Ends (g.generateArtifact c related m a x.1 x.2) t inv fun _ _ ↦ True)
    (as : List Artifact) (h : inv (r, written) s) :
    Ends (g.generateArtifacts c related m as r written) s inv fun _ _ ↦ True := by
  induction as generalizing r written s with
  | nil => exact (ends_pure _).2 h
  | cons a rest ih =>
    unfold generateArtifacts
    apply (heach a _ s h).bind
    intro x t hx
    exact ih hx

/-! ## All entities -/

variable {schema : Schema} {cs : List Configuration}

/-- Looking up the entities that nested requests lead to changes nothing but the log. -/
theorem ends_related_same {memory : Memory} :
    Ends (Generator.related schema c memory) s
      (fun _ t ↦ t.disk = s.disk ∧ t.asked = s.asked) fun _ _ ↦ True := by
  unfold Generator.related
  cases (Resolve.related schema c.studly []).run.run memory with | mk result memory' =>
  simp [Run.ends_lift]

/-- What each artifact keeps is kept by the artifacts of all entities, unless the run breaks off. -/
theorem ends_generateEntities_of_each {inv : Report × WriteManifest → Scene → Prop}
    (hlog : ∀ (x : Report × WriteManifest) (t u : Scene), inv x t → u.disk = t.disk →
      u.asked = t.asked → inv x u)
    (heach : ∀ (c : Configuration) (related : List String) (m : Moment) (a : Artifact)
        (x : Report × WriteManifest) (t : Scene), inv x t →
      Ends (g.generateArtifact c related m a x.1 x.2) t inv fun _ _ ↦ True)
    {i : Nat} {memory : Memory} (h : inv (r, written) s) :
    Ends (g.generateEntities schema i cs memory r written) s inv fun _ _ ↦ True := by
  induction cs generalizing i memory r written s with
  | nil => exact (ends_pure _).2 h
  | cons c rest ih =>
    unfold generateEntities
    cases g.moment.plus? i with
    | none => simp
    | some m =>
      simp only [pure_bind]
      apply ends_related_same.bind
      rintro names t ⟨hdisk, hasked⟩
      apply (ends_generateArtifacts_of_each (heach c _ _) _ (hlog _ s t h hdisk hasked)).bind
      intro x u hx
      exact ih hx

/-- A run through the entities breaks off: the calendar ends, or an artifact stops it. -/
inductive BreaksOff (g : Generator) (schema : Schema) (i : Nat) (cs : List Configuration)
    (e : Failure) : List (Turn g) → Disk → Prop
  | endOfCalendar {done more : List Configuration} {c : Configuration} {tasks : List Task}
      {xs : List (Turn g)} {d : Disk} (hcs : cs = done ++ c :: more)
      (hplans : Plans g schema i done tasks) (hxs : xs.map (·.task) = tasks)
      (hm : g.moment.plus? (i + done.length) = none) : BreaksOff g schema i cs e xs d
  | stopped {done more : List Configuration} {tasks : List Task} {xs : List (Turn g)} {d : Disk}
      (hcs : cs = done ++ more) (hplans : Plans g schema i done tasks)
      (hstops : Stops g tasks e xs d) : BreaksOff g schema i cs e xs d

/-- A run that breaks off has come through the first artifacts, up to some point. -/
theorem BreaksOff.exists_plans {i : Nat} {e : Failure} {xs : List (Turn g)} {d : Disk}
    (h : BreaksOff g schema i cs e xs d) :
    xs.map (fun x ↦ (x.task.config, x.task.artifact)) <+: enabledArtifacts cs := by
  have hmap (xs : List (Turn g)) : xs.map (fun x ↦ (x.task.config, x.task.artifact)) =
      (xs.map (·.task)).map fun x ↦ (x.config, x.artifact) := by simp
  have henabled (done more : List Configuration) :
      enabledArtifacts done <+: enabledArtifacts (done ++ more) := by
    rw [enabledArtifacts, enabledArtifacts, List.flatMap_append]
    exact List.prefix_append _ _
  cases h with
  | endOfCalendar hcs hplans hxs =>
    rw [hmap, hxs, hplans.enabled, hcs]
    exact henabled _ _
  | stopped hcs hplans hstops =>
    rw [hmap, hcs]
    refine List.IsPrefix.trans ?_ (henabled _ _)
    rw [← hplans.enabled]
    exact hstops.isPrefix.map _

/-- Each of its turns comes at the moment of its entity. -/
theorem BreaksOff.moments {i : Nat} {e : Failure} {xs : List (Turn g)} {d : Disk}
    (h : BreaksOff g schema i cs e xs d) :
    ∀ x ∈ xs, ∃ k, cs[k]? = some x.task.config ∧ g.moment.plus? (i + k) = some x.task.moment := by
  have hfirst {done more : List Configuration} {tasks : List Task}
      (hplans : Plans g schema i done tasks) (hxs : xs.map (·.task) ⊆ tasks) (x : Turn g)
      (hx : x ∈ xs) : ∃ k, (done ++ more)[k]? = some x.task.config ∧
        g.moment.plus? (i + k) = some x.task.moment := by
    obtain ⟨k, hk, hm⟩ := hplans.moments x.task (hxs (List.mem_map_of_mem hx))
    exact ⟨k, by rw [List.getElem?_append_left (List.getElem?_eq_some_iff.1 hk).1, hk], hm⟩
  cases h with
  | endOfCalendar hcs hplans hxs => exact hcs ▸ hfirst hplans (hxs ▸ List.Subset.refl _)
  | stopped hcs hplans hstops => exact hcs ▸ hfirst hplans hstops.isPrefix.subset

/-- Why a run through the entities breaks off: the calendar ends before the last of them, or the path
of an artifact cannot be worked out, or a turn ends the run. -/
theorem BreaksOff.reason {e : Failure} {xs : List (Turn g)} {d : Disk}
    (h : BreaksOff g schema 0 cs e xs d) :
    (∃ i < cs.length, g.moment.plus? i = none) ∨
      (∃ x : Task, (x.config, x.artifact) ∈ enabledArtifacts cs ∧
        ∃ fault, x.pathOn g.root d = .error fault) ∨ ∃ x ∈ xs, x.ending = .error e := by
  cases h with
  | @endOfCalendar done more c tasks xs d hcs hplans hxs hm =>
    refine .inl ⟨done.length, ?_, by rwa [Nat.zero_add] at hm⟩
    rw [hcs, List.length_append, List.length_cons]
    omega
  | @stopped done more tasks xs d hcs hplans hstops =>
    cases hstops with
    | @unlocated xs d x fault hpre he hpath =>
      refine .inr (.inl ⟨x, ?_, fault, hpath⟩)
      have hmem : x ∈ tasks := hpre.subset (by simp)
      have hdone := List.mem_map_of_mem (f := fun x : Task ↦ (x.config, x.artifact)) hmem
      rw [hplans.enabled] at hdone
      rw [hcs, enabledArtifacts, List.flatMap_append]
      exact List.mem_append_left _ hdone
    | @broken xs x d hpre he => exact .inr (.inr ⟨x, by simp, he⟩)

/-- The artifacts of the entities have their turns. Related entities are looked up in memories of a
kind that lookups keep, and what lookups from such memories find is what the artifacts are made
with. -/
theorem ends_generateEntities {i : Nat} {memory : Memory} {inv : Memory → Prop}
    {finds : String → List String → Prop}
    (hrelated : ∀ (name : String) (memory : Memory), inv memory →
      Ends (Resolve.related schema name []) memory
        (fun names t ↦ finds name names ∧ inv { t with log := [] }) fun _ _ ↦ False)
    (hmemory : inv memory) :
    Ends (g.generateEntities schema i cs memory r written) s
      (fun result t ↦ ∃ tasks xs os, Plans g schema i cs tasks ∧ xs.map (·.task) = tasks ∧
        (∀ x ∈ tasks, finds x.config.studly x.related) ∧
          Leads g xs s.disk s.asked t.disk t.asked ∧ List.Forall₂ Turn.Tells xs os ∧
            r.Adds os result.1)
      fun e t ↦ ∃ xs, (∀ x ∈ xs.map (·.task), finds x.config.studly x.related) ∧
        Leads g xs s.disk s.asked t.disk t.asked ∧ BreaksOff g schema i cs e xs t.disk := by
  induction cs generalizing i memory r written s with
  | nil => exact (ends_pure _).2 ⟨[], [], [], .nil, rfl, by simp, .stay _ _, .nil, .refl r⟩
  | cons c rest ih =>
    rw [generateEntities]
    rcases hm : g.moment.plus? i with - | m
    · simp only [ends_bind, ends_throw]
      exact ⟨[], by simp, .stay _ _,
        .endOfCalendar (show c :: rest = [] ++ c :: rest from rfl) .nil rfl hm⟩
    simp only [pure_bind, Generator.related]
    obtain ⟨names, memory₁, hrun, hfound, hmemory₁⟩ :=
      (hrelated c.studly memory hmemory).exists_run
    simp only [hrun, ends_bind, Run.ends_sayAll, Run.ends_lift, Except.ok.injEq, forall_eq',
      ends_pure, reduceCtorEq, false_imp_iff, implies_true, and_true]
    have hplans := Plans.tasks hm hrun
    have hfinds : ∀ x ∈ c.tasks names m, finds x.config.studly x.related := by
      intro x hx
      obtain ⟨a, -, rfl⟩ := List.mem_map.1 hx
      exact hfound
    refine (ends_generateArtifacts _).mono ?_ ?_
    · rintro ⟨r₁, written₁⟩ t ⟨xs, os, htasks, hleads, htells, hadds⟩
      refine (ih hmemory₁).mono ?_ ?_
      · rintro result u ⟨tasks, ys, os', hplans', hys, hfinds', hleads', htells', hadds'⟩
        exact ⟨_, xs ++ ys, os ++ os', hplans.append hplans',
          by rw [List.map_append, htasks, hys]; rfl, List.forall_mem_append.2 ⟨hfinds, hfinds'⟩,
          hleads.append hleads', List.rel_append htells htells', hadds.trans hadds'⟩
      · rintro e u ⟨ys, hfinds', hleads', hbreaks⟩
        refine ⟨xs ++ ys, ?_, hleads.append hleads', ?_⟩
        · rw [List.map_append, htasks]
          exact List.forall_mem_append.2 ⟨hfinds, hfinds'⟩
        cases hbreaks with
        | @endOfCalendar done _ _ _ _ _ hcs hplans' hys hend =>
          refine .endOfCalendar (show c :: rest = (c :: done) ++ _ by rw [hcs]; rfl)
            (hplans.append hplans') (by rw [List.map_append, htasks, hys]; rfl) ?_
          rw [List.length_cons, show i + (done.length + 1) = i + 1 + done.length by omega]
          exact hend
        | @stopped done _ _ _ _ hcs hplans' hstops =>
          exact .stopped (show c :: rest = (c :: done) ++ _ by rw [hcs]; rfl) (hplans.append hplans')
            (hstops.prepend htasks)
    · rintro e t ⟨xs, hleads, hstops⟩
      exact ⟨xs, fun x hx ↦ hfinds x (hstops.isPrefix.subset hx), hleads,
        .stopped (show c :: rest = [c] ++ rest from rfl) hplans hstops⟩

/-- Everything is generated, or the run breaks off. -/
theorem ends_generateAll {memory : Memory} {inv : Memory → Prop}
    {finds : String → List String → Prop}
    (hrelated : ∀ (name : String) (memory : Memory), inv memory →
      Ends (Resolve.related schema name []) memory
        (fun names t ↦ finds name names ∧ inv { t with log := [] }) fun _ _ ↦ False)
    (hmemory : inv memory) :
    Ends (g.generateAll schema cs memory r) s
      (fun r' t ↦ ∃ tasks xs os, Plans g schema 0 cs tasks ∧ xs.map (·.task) = tasks ∧
        (∀ x ∈ tasks, finds x.config.studly x.related) ∧
          Leads g xs s.disk s.asked t.disk t.asked ∧ List.Forall₂ Turn.Tells xs os ∧ r.Adds os r')
      fun e t ↦ ∃ xs, (∀ x ∈ xs.map (·.task), finds x.config.studly x.related) ∧
        Leads g xs s.disk s.asked t.disk t.asked ∧ BreaksOff g schema 0 cs e xs t.disk := by
  rw [generateAll, ends_bind]
  refine (ends_generateEntities hrelated hmemory).mono ?_ fun _ _ ↦ id
  rintro ⟨r₁, written₁⟩ t ⟨tasks, xs, os, hplans, hxs, hfinds, hleads, htells, hadds⟩
  simp only [ends_bind, Run.ends_say, ends_pure]
  exact ⟨tasks, xs, os, hplans, hxs, hfinds, hleads, htells, hadds.outcomes,
    hadds.generationErrors, hadds.validationErrors, hadds.backupErrors, hadds.routes, hadds.backup⟩

end Generator

end Scaffold
