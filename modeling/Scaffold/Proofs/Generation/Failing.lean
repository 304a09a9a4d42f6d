import Scaffold.Proofs.Disk.Failing
import Scaffold.Proofs.Generation.Accounts
import Scaffold.Proofs.Generation.History

/-!
# Artifacts that fail

An artifact fails when the disk does not say what stands at its path, when it cannot be rendered, or
when it cannot be written. Nothing is written before the last of these, and a write that fails keeps
all files. So the turn of an artifact that failed leaves the files as they were, and as its outcome
has no record, it leaves the manifest as it was.
-/

namespace Scaffold

/-! ## Turns -/

/-- An attempt that ends with a failure leaves the files as they were. -/
theorem Writer.Takes.keepsFiles {w : Writer} {content : Run Rendering} {relative : Path}
    {d d' : Disk} {asked : List String} {e : Failure}
    (h : Takes w content relative d asked (.error e) d') : d.KeepsFiles d' := by
  cases h with
  | unanswered => exact .refl d
  | unrendered => exact .refl d
  | refused _ _ _ hwrite =>
    exact (ends_of_run_error hwrite).1 (DiskOp.keepsFiles_writeFile _ _ w.safely d)

namespace Turn

variable {g : Generator} {x : Turn g} {o : Outcome} {e : Failure}

theorem keepsFiles_of_result (h : x.result = .error e) : x.before.KeepsFiles x.after := by
  have htakes := x.takes
  rw [h] at htakes
  exact htakes.keepsFiles

/-- The turn of an artifact that failed leaves the files as they were. -/
theorem Tells.keepsFiles (h : x.Tells o) (hfailed : o.status = .failed) :
    x.before.KeepsFiles x.after := by
  obtain ⟨status, hending, htells⟩ := h
  rw [htells.status] at hfailed
  cases hresult : x.result with
  | error e => exact keepsFiles_of_result hresult
  | ok status' =>
    have htakes := x.takes
    rw [hresult] at htakes
    simp only [ending, hresult, Except.ok.injEq] at hending
    exact absurd (hending.trans hfailed) htakes.ne_failed

end Turn

/-- The outcome reports the turn, and if it is a failure, the turn has changed neither the files nor
any manifest. -/
structure Turn.Spares {g : Generator} (x : Turn g) (o : Outcome) : Prop where
  tells : x.Tells o
  files : o.status = .failed → x.before.KeepsFiles x.after
  manifests : o.status = .failed → ∀ m : WriteManifest, m.addOutcome o = m

namespace Generator

variable {g : Generator} {schema : Schema} {c : Configuration} {cs : List Configuration}
  {related : List String} {moment : Moment} {a : Artifact} {memory : Memory} {r : Report}
  {m : WriteManifest} {s : Scene}

/-- The artifacts have their turns, and the outcomes tell of each: those that failed have changed
neither the files nor the manifest. -/
def Spared (g : Generator) (s : Scene) (r : Report) (m : WriteManifest)
    (result : Report × WriteManifest) (t : Scene) : Prop :=
  ∃ (xs : List (Turn g)) (os : List Outcome), Leads g xs s.disk s.asked t.disk t.asked ∧
    List.Forall₂ Turn.Spares xs os ∧ result.1.outcomes = r.outcomes ++ os ∧
      result.2 = os.foldl WriteManifest.addOutcome m

theorem Spared.refl (s : Scene) (r : Report) (m : WriteManifest) : g.Spared s r m (r, m) s :=
  ⟨[], [], .stay _ _, .nil, (List.append_nil _).symm, rfl⟩

theorem Spared.trans {x y : Report × WriteManifest} {t u : Scene} (h : g.Spared s r m x t)
    (h' : g.Spared t x.1 x.2 y u) : g.Spared s r m y u := by
  obtain ⟨xs, os, hleads, hspares, houtcomes, hmanifest⟩ := h
  obtain ⟨ys, os', hleads', hspares', houtcomes', hmanifest'⟩ := h'
  refine ⟨xs ++ ys, os ++ os', hleads.append hleads', List.rel_append hspares hspares', ?_, ?_⟩
  · rw [houtcomes', houtcomes, List.append_assoc]
  · rw [hmanifest', hmanifest, List.foldl_append]

end Generator

end Scaffold
