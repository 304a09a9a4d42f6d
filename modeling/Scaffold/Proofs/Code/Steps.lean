import Mathlib
import Scaffold.Code.Stmt

/-!
# The steps of generated code

The lines of a tree of statements in the order in which they are printed, each with the heads of the
blocks that it stands in. So what code does, in which order and under which conditions is one list
(`Stmt.allSteps`), and the steps of a fragment are put together like the fragment itself.
-/

namespace Scaffold

/-- A line of code with the heads of the blocks around it, the outermost first. -/
structure Step where
  blocks : List String
  text : String
  deriving DecidableEq

/-- The step, inside more blocks. -/
def Step.within (outer : List String) (step : Step) : Step := ⟨outer ++ step.blocks, step.text⟩

@[simp] theorem Step.within_nil (step : Step) : step.within [] = step := rfl

@[simp] theorem Step.within_within (outer inner : List String) (step : Step) :
    (step.within inner).within outer = step.within (outer ++ inner) := by
  simp [Step.within]

namespace Stmt

/-- Blank lines between groups do not count for what is collected from statements. -/
theorem flatMap_spaced {α : Type} (f : Stmt → List α) (hgap : f gap = [])
    (groups : List (List Stmt)) :
    (spaced groups).flatMap f = groups.flatMap fun group ↦ group.flatMap f := by
  have hfilter : (groups.filter (!·.isEmpty)).flatMap (fun group ↦ group.flatMap f) =
      groups.flatMap fun group ↦ group.flatMap f := by
    induction groups with
    | nil => rfl
    | cons g rest ih => cases g <;> simp [ih]
  rw [spaced, ← hfilter]
  generalize groups.filter (!·.isEmpty) = gs
  induction gs with
  | nil => rfl
  | cons g rest ih =>
    cases rest with
    | nil => simp
    | cons next more =>
      rw [List.intercalate_cons_cons, List.flatMap_append, List.flatMap_append, ih]
      simp [hgap]

/-! ## Steps -/

/-- What stands for the head of the alternative of a block. -/
def otherwise : String := "\x7d else \x7b"

mutual

/-- The steps of a statement. -/
def steps : Stmt → List Step
  | line text => [⟨[], text⟩]
  | gap => []
  | block head body _ => (allSteps body).map (Step.within [head])
  | choice head yes no =>
    (allSteps yes).map (Step.within [head]) ++ (allSteps no).map (Step.within [head, otherwise])

def allSteps : List Stmt → List Step
  | [] => []
  | s :: rest => steps s ++ allSteps rest

end

theorem allSteps_eq_flatMap (code : List Stmt) : allSteps code = code.flatMap steps := by
  induction code with
  | nil => rfl
  | cons s rest ih => rw [allSteps, ih, List.flatMap_cons]

@[simp] theorem allSteps_nil : allSteps [] = [] := rfl

@[simp] theorem allSteps_append (code more : List Stmt) :
    allSteps (code ++ more) = allSteps code ++ allSteps more := by
  simp [allSteps_eq_flatMap]

@[simp] theorem allSteps_singleton (s : Stmt) : allSteps [s] = steps s := by simp [allSteps]

@[simp] theorem steps_line (text : String) : steps (line text) = [⟨[], text⟩] := by rw [steps]

@[simp] theorem steps_block (head : String) (body : List Stmt) (close : String) :
    steps (block head body close) = (allSteps body).map (Step.within [head]) := by rw [steps]

@[simp] theorem steps_braces (head : String) (body : List Stmt) :
    steps (braces head body) = (allSteps body).map (Step.within [head ++ " \x7b"]) := by
  rw [braces, steps]

@[simp] theorem allSteps_spaced (groups : List (List Stmt)) :
    allSteps (spaced groups) = groups.flatMap allSteps := by
  simp only [funext allSteps_eq_flatMap, flatMap_spaced steps (by rw [steps])]

/-! ## Code inside code -/

/-- The steps of `part` stand in `whole` one after the other, perhaps inside more blocks. -/
def Inside (part whole : List Stmt) : Prop :=
  ∃ blocks, (allSteps part).map (Step.within blocks) <:+: allSteps whole

theorem Inside.of_steps {part whole : List Stmt} (h : allSteps part <:+: allSteps whole) :
    Inside part whole :=
  ⟨[], by rwa [funext Step.within_nil, List.map_id']⟩

theorem Inside.trans {part middle whole : List Stmt} (h : Inside part middle)
    (h' : Inside middle whole) : Inside part whole := by
  obtain ⟨inner, hinner⟩ := h
  obtain ⟨outer, houter⟩ := h'
  refine ⟨outer ++ inner, ?_⟩
  have hboth : ((allSteps part).map (Step.within inner)).map (Step.within outer) =
      (allSteps part).map (Step.within (outer ++ inner)) := by simp [Function.comp_def]
  rw [← hboth]
  exact (hinner.map _).trans houter

theorem inside_block (head : String) (body : List Stmt) (close : String) :
    Inside body [block head body close] :=
  ⟨[head], by rw [allSteps_singleton, steps_block]⟩

theorem inside_braces (head : String) (body : List Stmt) : Inside body [braces head body] :=
  inside_block _ body _

theorem inside_of_mem {s : Stmt} {code : List Stmt} (h : s ∈ code) : Inside [s] code := by
  refine .of_steps ?_
  obtain ⟨before, after, rfl⟩ := List.append_of_mem h
  exact ⟨allSteps before, allSteps after, by simp [allSteps]⟩

theorem inside_spaced {group : List Stmt} {groups : List (List Stmt)} (h : group ∈ groups) :
    Inside group (spaced groups) := by
  refine .of_steps ?_
  obtain ⟨before, after, rfl⟩ := List.append_of_mem h
  exact ⟨before.flatMap allSteps, after.flatMap allSteps, by simp⟩

/-! ## Empty blocks -/

mutual

/-- Has every block of the statement a body? -/
def filled : Stmt → Bool
  | line _ => true
  | gap => true
  | block _ body _ => !body.isEmpty && allFilled body
  | choice _ yes no => !yes.isEmpty && allFilled yes && (!no.isEmpty && allFilled no)

def allFilled : List Stmt → Bool
  | [] => true
  | s :: rest => filled s && allFilled rest

end

theorem allFilled_iff {code : List Stmt} : allFilled code = true ↔ ∀ s ∈ code, filled s = true := by
  induction code with
  | nil => simp [allFilled]
  | cons s rest ih => simp [allFilled, ih]

theorem filled_braces_iff {head : String} {body : List Stmt} :
    filled (braces head body) = true ↔ body ≠ [] ∧ allFilled body = true := by
  rw [braces, filled]
  simp

end Stmt

end Scaffold
