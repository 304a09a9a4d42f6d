import Scaffold.Proofs.Generation.Whole

/-!
# What a run may replace

No file goes in a run. In an anchored project a file that was there keeps its content, unless it is
the route file or the policy allows to replace it: always, or after a question about it that was
answered with yes. Questions are asked about artifacts that are there when their turn comes, in the
order of generation.
-/

namespace Scaffold

open Disk DiskOp

variable {g : Generator} {cs : List Configuration} {s t : Scene} {xs : List (Turn g)}

/-- The policy is to ask, and something is at the path of the artifact when its turn comes. -/
def Turn.isAsked (x : Turn g) : Bool :=
  g.settings.policy == .prompt && g.answers.isSome &&
    (x.before.isThere (g.root ++ x.path)).toOption == some true

theorem Turn.asks_eq (x : Turn g) :
    x.asks = if x.isAsked then [Writer.question x.path] else [] := by
  have hroot : g.writer.root = g.root := rfl
  have hpolicy : g.writer.policy = g.settings.policy := rfl
  have hanswers : g.writer.answers = g.answers := rfl
  rw [asks, isAsked, Writer.asks, hroot]
  rcases x.before.isThere (g.root ++ x.path) with e | ⟨⟩ | ⟨⟩
  · simp [Except.toOption]
  · simp [Except.toOption]
  · rw [Writer.questions, hpolicy, hanswers]
    rcases g.settings.policy <;> rcases g.answers <;> simp [Except.toOption]

theorem Leads.asked_eq_filter {d d' : Disk} {asked asked' : List String}
    (h : Leads g xs d asked d' asked') :
    asked' = asked ++ (xs.filter Turn.isAsked).map fun x ↦ Writer.question x.path := by
  have hlist (xs : List (Turn g)) :
      xs.flatMap Turn.asks = (xs.filter Turn.isAsked).map fun x ↦ Writer.question x.path := by
    induction xs with
    | nil => rfl
    | cons x rest ih =>
      rw [List.flatMap_cons, ih, x.asks_eq]
      rcases hasked : x.isAsked with - | - <;> simp [hasked]
  rw [h.asked_eq, hlist]

/-- The policy allows to replace what is at the path of the artifact. -/
def Turn.MayReplace (x : Turn g) : Prop :=
  g.settings.policy = .force ∨ g.settings.policy = .prompt ∧ x.isAsked = true ∧ ∃ answers,
    g.answers = some answers ∧ answers x.asked (Writer.question x.path) = true

theorem Turn.mayReplace_of_permits {x : Turn g}
    (hthere : x.before.isThere (g.root ++ x.path) = .ok true)
    (h : g.writer.permits x.asked x.path = true) : x.MayReplace := by
  have hpolicy : g.writer.policy = g.settings.policy := rfl
  have hanswers : g.writer.answers = g.answers := rfl
  rw [Writer.permits, hpolicy, hanswers] at h
  rw [MayReplace, isAsked, hthere]
  rcases hpolicy : g.settings.policy <;> rcases hanswers : g.answers with - | answers <;>
    simp_all [Except.toOption]

/-- What a run did to files that were there before, and what it asked: `xs` are its turns. -/
structure Protects (g : Generator) (cs : List Configuration) (xs : List (Turn g)) (s t : Scene) :
    Prop where
  /-- Artifacts have their turns in the order of generation, one after the other. -/
  order : xs.map (fun x ↦ (x.task.config, x.task.artifact)) <+: enabledArtifacts cs
  turns : ∃ d₁ d₂, g.store.Frame s.disk d₁ ∧ Leads g xs d₁ s.asked d₂ t.asked ∧
    Grows everywhere (· = g.routes.place s.disk) d₂ t.disk
  /-- No file goes. -/
  stays : ∀ l, (s.disk.file? l).isSome → (t.disk.file? l).isSome
  /-- A file of an anchored project changes if it is an artifact that the policy allows to
  replace. -/
  changed : s.disk.Anchored g.root → ∀ l, (s.disk.file? l).isSome → l ≠ g.routes.place s.disk →
    t.disk.file? l ≠ s.disk.file? l →
      ∃ x ∈ xs, l = s.disk.resolve (g.root ++ x.path) ∧ x.MayReplace
  /-- Only under the policy to ask there are questions: one for each artifact that is there at its
  turn. -/
  asked : t.asked = s.asked ++ (xs.filter Turn.isAsked).map fun x ↦ Writer.question x.path

/-- From its backup to its routes a run protects what was there. -/
theorem Leads.protects {d₁ d₂ : Disk} (hframe : g.store.Frame s.disk d₁)
    (horder : xs.map (fun x ↦ (x.task.config, x.task.artifact)) <+: enabledArtifacts cs)
    (hwords : ∀ x ∈ xs, x.task.config.studly = "" ∨ IsWord x.task.config.studly)
    (hleads : Leads g xs d₁ s.asked d₂ t.asked)
    (hroutes : Grows everywhere (· = g.routes.place d₂) d₂ t.disk) : Protects g cs xs s t := by
  obtain ⟨hturns, hpaths⟩ := hleads.grows hframe.wellFormed g.spelled_root hwords
  have hplace : g.routes.place d₂ = g.routes.place s.disk :=
    resolve_congr (hturns.cwd.trans hframe.cwd) _
  rw [hplace] at hroutes
  refine ⟨horder, ⟨d₁, d₂, hframe, hleads, hroutes⟩,
    fun l hl ↦ hroutes.stays l (hturns.stays l (hframe.stays l hl)),
    fun hanchor l hl hne hchanged ↦ ?_, hleads.asked_eq_filter⟩
  rw [hroutes.same l hne] at hchanged
  -- The backup only makes new files, so a turn has changed this one.
  have hbackup : d₁.file? l = s.disk.file? l := hframe.same l fun ⟨hnone, _⟩ ↦ by
    rw [hnone] at hl
    cases hl
  rw [← hbackup] at hchanged
  obtain ⟨x, hx, hwrites, hl'⟩ : ∃ x ∈ xs, x.Writes ∧ l = x.place := by
    by_contra hno
    exact hchanged (hturns.same l hno)
  obtain ⟨-, hcwd, hpath⟩ := hpaths x hx
  -- When the turn came the file was there, and the root was anchored.
  obtain ⟨-, hbefore⟩ := hleads.invariant
    (fun d ↦ d.WellFormed ∧ d.Anchored g.root ∧ (d.file? l).isSome)
    ⟨hframe.wellFormed, hframe.anchored hanchor, by rwa [hbackup]⟩
    fun y hy ⟨hwf', hanchor', hsome⟩ ↦ by
      obtain ⟨hgrows, -⟩ := y.grows hwf' g.spelled_root (hpaths y hy).2.2
      exact ⟨hgrows.wellFormed, hgrows.anchored hanchor', hgrows.stays l hsome⟩
  obtain ⟨hwf', hanchor', hsome⟩ := hbefore x hx
  refine ⟨x, hx, ?_, ?_⟩
  · rw [hl', Turn.place]
    exact resolve_congr (hcwd.trans hframe.cwd) _
  · obtain ⟨there, hthere, hpermits⟩ := x.permits_of_writes hwrites
    have htrue : there = true := by
      rw [hwf'.eq_of_isThere (hpath.anchored hanchor') hthere]
      obtain ⟨content, hcontent⟩ := Option.isSome_iff_exists.1 hsome
      rw [hl'] at hcontent
      rw [← Turn.place, file?_eq_some_iff.1 hcontent]
      rfl
    subst htrue
    exact Turn.mayReplace_of_permits hthere (hpermits rfl)

namespace Generator

/-- A run without any turn protects everything. -/
theorem protects_of_frame (hasked : t.asked = s.asked) (hadds : g.store.Adds s.disk t.disk) :
    Protects g cs [] s t := by
  refine Leads.protects hadds.frame List.nil_prefix (by simp) ?_ (.refl hadds.wellFormed)
  rw [hasked]
  exact .stay _ _

variable {raw : Value} {schema : Schema}

/-- A run over an accepted schema protects what was there, whether or not it gets through. If it
does, and its backup did not fail, every enabled artifact had its turn. -/
theorem ends_generate_protects (haccepted : schema.Accepted raw) (hwf : s.disk.WellFormed)
    (hroutes : g.routes.root.Spelled) :
    Ends (g.generate raw) s
      (fun r t ↦ ∃ cs memory xs, (Configuration.buildAll schema).run.run Memory.empty =
          (.ok cs, memory) ∧ Protects g cs xs s t ∧ (r.backupErrors = [] →
            xs.map (fun x ↦ (x.task.config, x.task.artifact)) = enabledArtifacts cs))
      fun _ t ↦ t.disk = s.disk ∧ t.asked = s.asked ∨ ∃ cs memory xs,
        (Configuration.buildAll schema).run.run Memory.empty = (.ok cs, memory) ∧
          Protects g cs xs s t := by
  refine ends_generate haccepted (fun cs memory r log hrun hfresh _ ↦ ?_) fun _ _ _ ↦ .inl ⟨rfl, rfl⟩
  have hbuilt := Configuration.built haccepted hrun
  refine (ends_process (s := { s with log }) hwf hroutes hbuilt hfresh).mono ?_ ?_
  · rintro r' t hreports
    cases hreports with
    | unready hbackup herrors houtcomes hroutes hasked hframe =>
      exact ⟨cs, memory, [], hrun, protects_of_frame (s := s) hasked hframe, fun h ↦ absurd h herrors⟩
    | @complete d₁ d₂ xs os results hbackup hplans hleads htells hgrows =>
      exact ⟨cs, memory, xs, hrun, Leads.protects (s := s) (hbackup.frame hwf) hplans.isPrefix
        (hbuilt.words_of_turns hplans.isPrefix) hleads (hgrows.mono (fun _ _ ↦ trivial) fun _ ↦ id),
        fun _ ↦ hplans.enabled_eq⟩
  · rintro e t hbreaks
    refine .inr ?_
    cases hbreaks with
    | backup hbackup hasked hframe =>
      exact ⟨cs, memory, [], hrun, protects_of_frame (s := s) hasked hframe⟩
    | @artifact d₁ xs r₁ hbackup hleads hbreaks =>
      have hframe := hbackup.frame hwf
      have horder := hbreaks.exists_plans
      have hwf' := (hleads.grows hframe.wellFormed g.spelled_root
        (hbuilt.words_of_turns horder)).1.wellFormed
      exact ⟨cs, memory, xs, hrun, Leads.protects (s := s) hframe horder
        (hbuilt.words_of_turns horder) hleads (.refl hwf')⟩
    | @route d₁ d₂ xs r₁ hbackup hplans hleads hgrows =>
      have hframe := hbackup.frame hwf
      exact ⟨cs, memory, xs, hrun, Leads.protects (s := s) hframe hplans.isPrefix
        (hbuilt.words_of_turns hplans.isPrefix) hleads hgrows⟩

/-- Whoever always says no keeps what is there. -/
theorem smallProject_protects :
    Ends ((Generator.ofSettings (SmallProject.settings .prompt) (some fun _ _ ↦ false)
        SmallProject.moment).generate (.map SmallProject.entries)) SmallProject.scene
      (fun _ t ↦ t.disk.file? ["app", "Models", "Post.php"] = some (Text.encode "<?php"))
      fun _ t ↦ t.disk.file? ["app", "Models", "Post.php"] = some (Text.encode "<?php") := by
  have hthere : SmallProject.disk.file? ["app", "Models", "Post.php"] =
      some (Text.encode "<?php") := rfl
  have hkeeps {cs : List Configuration} {xs : List (Turn _)} {t : Scene}
      (h : Protects (Generator.ofSettings (SmallProject.settings .prompt) (some fun _ _ ↦ false)
        SmallProject.moment) cs xs SmallProject.scene t) :
      t.disk.file? ["app", "Models", "Post.php"] = some (Text.encode "<?php") := by
    by_contra hne
    obtain ⟨x, -, -, hmay⟩ := h.changed (anchoredFrom_of_plain _ _ (by decide)) _
      (by rw [show SmallProject.scene.disk.file? _ = _ from hthere]; rfl) (by decide) hne
    rcases hmay with hforce | ⟨-, -, answers, hanswers, hyes⟩
    · cases hforce
    · obtain rfl := Option.some.inj hanswers
      cases hyes
  refine (ends_generate_protects SmallProject.accepted (by decide)
    (Path.spelled_ofString _)).mono ?_ ?_
  · rintro r t ⟨cs, memory, xs, -, h, -⟩
    exact hkeeps h
  · rintro e t (⟨hdisk, -⟩ | ⟨cs, memory, xs, -, h⟩)
    · rw [hdisk]
      exact hthere
    · exact hkeeps h

end Generator

end Scaffold
