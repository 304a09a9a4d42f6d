import Mathlib
import Scaffold.Code.Store
import Scaffold.Code.Update
import Scaffold.Proofs.Code.Steps
import Scaffold.Proofs.Name.Letters
import Scaffold.Proofs.Text.Trimming

/-!
# The variables that generated code assigns

A line assigns a variable if it starts with it and goes on with an equals sign or an index; the
head of a loop assigns the variable that runs through the items. So the variables that a tree of
statements assigns can be read off its texts (`Stmt.allAssigns`), and for every fragment of
generated code it is known which they are, whatever names, fields and accessors it was made from.
-/

namespace Scaffold

namespace Stmt

/-! ## Reading variables off statements -/

/-- Is this a character of names of variables? -/
def isNameChar (c : Char) : Bool := c.isAlphanum || c == '_'

/-- After a variable, does an assignment to it or to a part of it follow? -/
def isAssignment : List Char → Bool
  | ' ' :: '=' :: ' ' :: _ => true
  | '[' :: _ => true
  | _ => false

/-- The variable that a line assigns. -/
def lineAssigns (text : String) : List String :=
  match text.toList with
  | '$' :: rest =>
    if isAssignment (rest.dropWhile isNameChar) then
      [String.ofList ('$' :: rest.takeWhile isNameChar)]
    else []
  | _ => []

/-- The variable that the head of a loop assigns: the last one before `) {`. -/
def loopAssigns (head : String) : List String :=
  if "foreach (".toList.isPrefixOf head.toList then
    [String.ofList ('$' :: ((head.toList.reverse.drop 3).takeWhile isNameChar).reverse)]
  else []

mutual

/-- The variables that a statement assigns. -/
def assigns : Stmt → List String
  | line text => lineAssigns text
  | gap => []
  | block head body _ => loopAssigns head ++ allAssigns body
  | choice _ yes no => allAssigns yes ++ allAssigns no

def allAssigns : List Stmt → List String
  | [] => []
  | s :: rest => assigns s ++ allAssigns rest

end

theorem allAssigns_eq_flatMap (code : List Stmt) :
    allAssigns code = code.flatMap assigns := by
  induction code with
  | nil => rfl
  | cons s rest ih => rw [allAssigns, ih, List.flatMap_cons]

@[simp] theorem allAssigns_nil : allAssigns [] = [] := rfl

@[simp] theorem allAssigns_append (code more : List Stmt) :
    allAssigns (code ++ more) = allAssigns code ++ allAssigns more := by
  simp [allAssigns_eq_flatMap]

@[simp] theorem allAssigns_singleton (s : Stmt) : allAssigns [s] = assigns s := by
  simp [allAssigns]

/-- Blank lines between groups assign nothing. -/
@[simp] theorem allAssigns_spaced (groups : List (List Stmt)) :
    allAssigns (spaced groups) = groups.flatMap allAssigns := by
  simp only [funext allAssigns_eq_flatMap, flatMap_spaced assigns (by rw [assigns])]

mutual

/-- What a step assigns, the code assigns. -/
theorem mem_assigns_of_step (s : Stmt) :
    ∀ step ∈ steps s, ∀ v ∈ lineAssigns step.text, v ∈ assigns s := by
  cases s with
  | line text => simp [assigns]
  | gap => simp [steps]
  | block head body close =>
    rw [steps_block, List.forall_mem_map]
    exact fun step hstep v hv ↦ List.mem_append_right _ (mem_allAssigns_of_step body step hstep v hv)
  | choice head yes no =>
    rw [steps, List.forall_mem_append, List.forall_mem_map, List.forall_mem_map]
    exact ⟨fun step hstep v hv ↦ List.mem_append_left _ (mem_allAssigns_of_step yes step hstep v hv),
      fun step hstep v hv ↦ List.mem_append_right _ (mem_allAssigns_of_step no step hstep v hv)⟩

theorem mem_allAssigns_of_step (code : List Stmt) :
    ∀ step ∈ allSteps code, ∀ v ∈ lineAssigns step.text, v ∈ allAssigns code := by
  cases code with
  | nil => simp
  | cons s rest =>
    rw [allSteps, List.forall_mem_append]
    exact ⟨fun step hstep v hv ↦ List.mem_append_left _ (mem_assigns_of_step s step hstep v hv),
      fun step hstep v hv ↦ List.mem_append_right _ (mem_allAssigns_of_step rest step hstep v hv)⟩

end

/-! ## Variables -/

/-- Is this a text that names of variables may contain? -/
def IsName (s : String) : Prop := s.toList.all isNameChar = true

instance (s : String) : Decidable (IsName s) :=
  inferInstanceAs (Decidable (s.toList.all isNameChar = true))

theorem IsName.append {s t : String} (hs : IsName s) (ht : IsName t) : IsName (s ++ t) := by
  rw [IsName, String.toList_append, List.all_append, hs, ht, Bool.and_self]

theorem isName_camel (name : String) : IsName (Name.camel name) :=
  List.all_eq_true.2 fun c hc ↦ by simp [isNameChar, Name.isAlphanum_of_mem_camel c hc]

theorem isName_studly (name : String) : IsName (Name.studly name) :=
  List.all_eq_true.2 fun c hc ↦ by simp [isNameChar, Name.isAlphanum_of_mem_studly c hc]

/-- A dollar sign and a name. -/
def IsVariable (x : String) : Prop :=
  ∃ name : List Char, name.all isNameChar = true ∧ x.toList = '$' :: name

theorem IsVariable.append {x s : String} (hx : IsVariable x) (hs : IsName s) :
    IsVariable (x ++ s) := by
  obtain ⟨name, hname, hx⟩ := hx
  refine ⟨name ++ s.toList, ?_, by simp [hx]⟩
  rw [List.all_append, hname, hs, Bool.and_self]

theorem isVariable_of_isName {s : String} (hs : IsName s) : IsVariable ("$" ++ s) :=
  IsVariable.append ⟨[], rfl, rfl⟩ hs

/-- What a line that starts with a variable assigns depends on what follows it. -/
theorem IsVariable.lineAssigns {x text : String} (hx : IsVariable x) {d : Char} {rest : List Char}
    (htext : text.toList = x.toList ++ d :: rest) (hd : isNameChar d = false) :
    lineAssigns text = if isAssignment (d :: rest) then [x] else [] := by
  obtain ⟨name, hname, hx⟩ := hx
  obtain ⟨htake, hdrop⟩ := Text.takeWhile_dropWhile_append (m := d :: rest)
    (List.all_eq_true.1 hname) (by simpa using hd)
  have hx' : String.ofList ('$' :: name) = x := by rw [← hx, String.ofList_toList]
  rw [Stmt.lineAssigns, htext, hx, List.cons_append]
  simp only [htake, hdrop, hx']

theorem IsVariable.assigns_of_equals {x text : String} (hx : IsVariable x) {rest : List Char}
    (htext : text.toList = x.toList ++ ' ' :: '=' :: ' ' :: rest) : assigns (.line text) = [x] :=
  hx.lineAssigns htext rfl

theorem IsVariable.assigns_of_index {x text : String} (hx : IsVariable x) {rest : List Char}
    (htext : text.toList = x.toList ++ '[' :: rest) : assigns (.line text) = [x] :=
  hx.lineAssigns htext rfl

theorem IsVariable.assigns_of_arrow {x text : String} (hx : IsVariable x) {rest : List Char}
    (htext : text.toList = x.toList ++ '-' :: rest) : assigns (.line text) = [] :=
  hx.lineAssigns htext rfl

/-- A line that starts otherwise assigns nothing. -/
theorem assigns_of_head?_ne {text : String} (h : text.toList.head? ≠ some '$') :
    assigns (.line text) = [] := by
  rw [assigns, lineAssigns]
  split
  · next htext => simp [htext] at h
  · rfl

theorem IsVariable.eq_or_mem_of_loop {x before v : String} {body : List Stmt}
    (hx : IsVariable x) (hv : v ∈ assigns (braces (before ++ x ++ ")") body))
    (hbefore : "foreach (".toList <+: before.toList) : v = x ∨ v ∈ allAssigns body := by
  obtain ⟨name, hname, hx⟩ := hx
  have hhead : (before ++ x ++ ")" ++ " \x7b").toList =
      before.toList ++ '$' :: (name ++ ") \x7b".toList) := by simp [hx]
  have hpre : "foreach (".toList.isPrefixOf (before ++ x ++ ")" ++ " \x7b").toList := by
    rw [hhead, List.isPrefixOf_iff_prefix]
    exact hbefore.trans (List.prefix_append _ _)
  have hdrop : (before ++ x ++ ")" ++ " \x7b").toList.reverse.drop 3 =
      name.reverse ++ '$' :: before.toList.reverse := by
    rw [hhead]
    simp
  have hname' : ∀ c ∈ name.reverse, isNameChar c = true := by simpa using hname
  have htake := (Text.takeWhile_dropWhile_append (m := '$' :: before.toList.reverse) hname'
    (by simp; decide)).1
  rw [braces, assigns, loopAssigns, if_pos hpre, hdrop, htake, List.reverse_reverse, ← hx,
    String.ofList_toList, List.singleton_append, List.mem_cons] at hv
  exact hv

theorem allAssigns_subset_assigns_braces (head : String) (body : List Stmt) :
    allAssigns body ⊆ assigns (braces head body) := List.subset_append_right _ _

theorem assigns_if {head : String} (body : List Stmt) {rest : List Char}
    (hhead : head.toList = 'i' :: rest) : assigns (braces head body) = allAssigns body := by
  simp [braces, assigns, loopAssigns, hhead, List.isPrefixOf]

end Stmt

open Stmt

/-! ## Code for files -/

namespace Attachment

theorem allAssigns_nameCode_subset {slug : String} (hslug : IsVariable slug) (fields : List Field)
    (data : String) (fallback : Option String) :
    allAssigns (nameCode fields data slug fallback) ⊆ [slug] := by
  rw [nameCode]
  split
  · simp
  · generalize nameSource fields data fallback = source
    have hfirst : assigns (.line s!"{slug} = (string) ({source});") = [slug] :=
      hslug.assigns_of_equals (by simp [toString]; rfl)
    have hcut : assigns (.line s!"{slug} = substr({slug}, 0, 20);") = [slug] :=
      hslug.assigns_of_equals (by simp [toString]; rfl)
    have hlong : assigns (.braces s!"if (strlen({slug}) > 20)"
        [.line s!"{slug} = substr({slug}, 0, 20);"]) = [slug] := by
      rw [assigns_if _ (by simp [toString]; rfl), allAssigns_singleton, hcut]
    have hlast : assigns (.line s!"{slug} = Str::slug({slug});") = [slug] :=
      hslug.assigns_of_equals (by simp [toString]; rfl)
    simp [allAssigns, hfirst, hlong, hlast]

theorem allAssigns_uploadCode_subset {data : String} (hdata : IsVariable data)
    (fields : List Field) (entity slug : String) :
    allAssigns (uploadCode fields entity data slug) ⊆ [data] := by
  have hfield (field : String) : assigns (uploadField entity data slug field) = [data] := by
    rw [uploadField, assigns_if _ (by simp [toString]; rfl), allAssigns_singleton]
    exact hdata.assigns_of_index (by simp [toString]; rfl)
  simp only [uploadCode, allAssigns_eq_flatMap, List.flatMap_map, hfield]
  simp [List.subset_def]

theorem isVariable_oldVariable (path field : String) : IsVariable (oldVariable path field) :=
  have hold : IsVariable "$old" := ⟨"old".toList, by decide, rfl⟩
  (hold.append (isName_studly path)).append (isName_studly field)

/-- The references of replaced files are kept in variables of their own. -/
theorem exists_of_mem_captureCode {fields : List Field} {record path v : String}
    (hv : v ∈ allAssigns (captureCode fields record path)) :
    ∃ field, v = oldVariable path field := by
  have hfield (field : String) :
      assigns (captureField record path field) = [oldVariable path field] :=
    (isVariable_oldVariable path field).assigns_of_equals (by simp [toString]; rfl)
  simp only [captureCode, allAssigns_eq_flatMap, List.flatMap_map, hfield, List.mem_flatMap,
    List.mem_singleton] at hv
  obtain ⟨field, -, rfl⟩ := hv
  exact ⟨field, rfl⟩

theorem allAssigns_releaseCode (fields : List Field) (data path : String) :
    allAssigns (releaseCode fields data path) = [] := by
  have hfield (field : String) : assigns (releaseField data path field) = [] := by
    rw [releaseField, assigns_if _ (by simp [toString]; rfl), allAssigns_singleton]
    exact assigns_of_head?_ne (by simp [toString])
  simp [releaseCode, allAssigns_eq_flatMap, List.flatMap_map, hfield]

theorem allAssigns_purgeCode (fields : List Field) (record : String) :
    allAssigns (purgeCode fields record) = [] := by
  have hfield (field : String) : assigns (purgeField record field) = [] := by
    rw [purgeField, assigns_if _ (by simp [toString]; rfl), allAssigns_singleton]
    exact assigns_of_head?_ne (by simp [toString])
  simp [purgeCode, allAssigns_eq_flatMap, List.flatMap_map, hfield]

end Attachment

namespace Code

theorem allAssigns_splitCode_subset {nested data : String} (hnested : IsVariable nested)
    (hdata : IsVariable data) (source : String) (keys more : List String) :
    allAssigns (splitCode source keys nested data more) ⊆ [nested, data] := by
  have honly (taken : String) :
      assigns (.line s!"{nested} = Arr::only({source}, {taken});") = [nested] :=
    hnested.assigns_of_equals (by simp [toString]; rfl)
  have hall : assigns (.line s!"{data} = {source};") = [data] :=
    hdata.assigns_of_equals (by simp [toString]; rfl)
  have hexcept (left : String) :
      assigns (.line s!"{data} = Arr::except({source}, {left});") = [data] :=
    hdata.assigns_of_equals (by simp [toString]; rfl)
  rw [splitCode, allAssigns_append]
  refine List.append_subset.2 ⟨?_, ?_⟩
  · split <;> simp [honly]
  · split <;> simp [hall, hexcept]

theorem allAssigns_syncCode {parent : String} (hparent : IsVariable parent) (verb nested : String)
    (r : Relation) : allAssigns (syncCode verb parent nested r) = [] := by
  have hcomment : assigns (.line s!"// {verb} {r.name}") = [] :=
    assigns_of_head?_ne (by simp [toString])
  have hsync : assigns (.line
      s!"{parent}->{r.name}()->sync({nested}['{r.requestKey}'] ?? []);") = [] :=
    hparent.assigns_of_arrow (by simp [toString]; rfl)
  rw [syncCode, allAssigns, hcomment, List.nil_append, allAssigns_singleton,
    assigns_if _ (by simp [toString]; rfl), allAssigns_singleton, hsync]

theorem assigns_persistCode {record : String} (hrecord : IsVariable record)
    (accessor data : String) : assigns (persistCode record accessor data) = [record] := by
  have hupdate : assigns (.line s!"{record}->update({data});") = [] :=
    hrecord.assigns_of_arrow (by simp [toString]; rfl)
  have hcreate : assigns (.line s!"{record} = {accessor}()->create({data});") = [record] :=
    hrecord.assigns_of_equals (by simp [toString]; rfl)
  rw [persistCode, assigns, allAssigns_singleton, allAssigns_singleton, hupdate, hcreate,
    List.nil_append]

end Code

end Scaffold
