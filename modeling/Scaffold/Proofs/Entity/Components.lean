import Mathlib
import Scaffold.Proofs.Ends
import Scaffold.Run.Failure
import Scaffold.Validation.Checks

/-!
# The components that an entity names

The names of components are looked at twice. Validation takes them as they stand. Working out what
is on takes them without their outer blanks, and then looks the choice of a mapping up under what is
left. So a known name with blanks around it is refused by the one and read by the other, and in a
mapping it may not be found again at all. `checksAgree_iff` says for which entities the two agree.
-/

namespace Scaffold

open Text (strip)

namespace Component

/-- A component has this name. -/
def IsKnown (name : String) : Prop := (ofName? name).isSome = true

/-- A component has this name, apart from outer blanks. -/
def Reads (name : String) : Prop := IsKnown (strip name)

theorem ofName?_eq_some_iff {name : String} {c : Component} :
    ofName? name = some c ↔ c.name = name := by
  constructor
  · intro h
    simpa using List.find?_some h
  · intro h
    rw [← h, ofName?_name]

theorem isKnown_iff {name : String} : IsKnown name ↔ ∃ c : Component, c.name = name := by
  unfold IsKnown
  rw [Option.isSome_iff_exists]
  exact exists_congr fun c ↦ ofName?_eq_some_iff

theorem not_isKnown_iff {name : String} : ¬IsKnown name ↔ ofName? name = .none := by
  unfold IsKnown
  rw [Bool.not_eq_true, Option.isSome_eq_false_iff, Option.isNone_iff_eq_none]

theorem strip_name (c : Component) : strip c.name = c.name := by cases c <;> decide

theorem IsKnown.strip_eq {name : String} (h : IsKnown name) : strip name = name := by
  obtain ⟨c, hc⟩ := isKnown_iff.1 h
  rw [← hc, strip_name]

theorem IsKnown.reads {name : String} (h : IsKnown name) : Reads name := by
  unfold Reads
  rwa [h.strip_eq]

end Component

open Component

/-- Whatever component a mapping chooses is found again under its plain name. -/
def Selection.Complete : Selection → Prop
  | .chosen choices => ∀ key ∈ choices.map Prod.fst, strip key ∈ choices.map Prod.fst
  | _ => True

/-- Known names are found again. -/
theorem Selection.complete_of_isKnown {selection : Selection}
    (h : ∀ name ∈ selection.mentioned, IsKnown name) : selection.Complete := by
  cases selection with
  | chosen choices =>
    intro key hkey
    rw [(h key hkey).strip_eq]
    exact hkey
  | _ => trivial

/-! ## Working out what is on -/

namespace Toggles

variable {source : String} {names : List String} {choices : List (String × Bool)}
  {selection : Selection}

/-- Names that read are read as the components that have them. -/
theorem exists_readNames (source : String) (h : ∀ name ∈ names, Reads name) :
    ∃ components, readNames source names = .ok components ∧
      components.map Component.name = names.map strip := by
  obtain ⟨components, hread⟩ : ∃ components, readNames source names = .ok components := by
    apply exists_mapM_eq_ok
    intro name hname
    obtain ⟨c, hc⟩ := Option.isSome_iff_exists.1 (h name hname)
    exact ⟨c, by simp only [hc]⟩
  refine ⟨components, hread, (map_eq_map_of_forall₂ ?_).symm⟩
  apply (mapM_eq_ok_iff.1 hread).imp
  intro name c hc
  dsimp only at hc
  split at hc
  · next hfound =>
    cases hc
    exact (ofName?_eq_some_iff.1 hfound).symm
  · cases hc

/-- A name that does not read is the reason why names are not read. -/
theorem readNames_of_not_reads (source : String) (h : ∃ name ∈ names, ¬Reads name) :
    ∃ name, readNames source names = .error (.unknown name source) := by
  induction names with
  | nil =>
    obtain ⟨name, hname, -⟩ := h
    cases hname
  | cons name rest ih =>
    unfold readNames at ih ⊢
    rw [List.mapM_cons]
    by_cases hreads : Reads name
    · have hrest : ∃ name ∈ rest, ¬Reads name := by
        obtain ⟨other, hother, hno⟩ := h
        cases hother with
        | head => exact absurd hreads hno
        | tail _ hmem => exact ⟨other, hmem, hno⟩
      obtain ⟨c, hc⟩ := Option.isSome_iff_exists.1 hreads
      obtain ⟨unread, herror⟩ := ih hrest
      exact ⟨unread, by simp only [hc, herror]; rfl⟩
    · have hnone : ofName? (strip name) = .none := not_isKnown_iff.1 hreads
      exact ⟨strip name, by simp only [hnone]; rfl⟩

/-- Choices are applied if every component is among the keys. -/
theorem exists_choose {components : List Component} (t : Toggles)
    (h : ∀ c ∈ components, c.name ∈ choices.map Prod.fst) :
    ∃ t', choose choices components t = .ok t' := by
  induction components generalizing t with
  | nil => exact ⟨t, rfl⟩
  | cons c rest ih =>
    have hsome : (choices.lookup c.name).isSome = true := by
      obtain ⟨choice, hmem, hname⟩ := List.mem_map.1 (h c List.mem_cons_self)
      rw [List.lookup_isSome_iff]
      exact ⟨choice, hmem, by rw [hname, beq_self_eq_true]⟩
    obtain ⟨on, hon⟩ := Option.isSome_iff_exists.1 hsome
    rw [choose, hon]
    exact ih _ fun c' hc' ↦ h c' (List.mem_cons_of_mem c hc')

/-- A component that is not among the keys is the reason why choices are not applied. -/
theorem choose_of_not_mem {components : List Component} (t : Toggles)
    (h : ∃ c ∈ components, c.name ∉ choices.map Prod.fst) :
    ∃ name, choose choices components t = .error (.padded name) := by
  induction components generalizing t with
  | nil =>
    obtain ⟨c, hc, -⟩ := h
    cases hc
  | cons c rest ih =>
    rw [choose]
    cases hlookup : choices.lookup c.name with
    | none => exact ⟨c.name, rfl⟩
    | some on =>
      have hkey : c.name ∈ choices.map Prod.fst := by
        obtain ⟨choice, hmem, heq⟩ :=
          List.lookup_isSome_iff.1 (Option.isSome_iff_exists.2 ⟨on, hlookup⟩)
        exact List.mem_map.2 ⟨choice, hmem, (eq_of_beq heq).symm⟩
      apply ih
      obtain ⟨other, hother, hno⟩ := h
      cases hother with
      | head => exact absurd hkey hno
      | tail _ hmem => exact ⟨other, hmem, hno⟩

/-- A selection is followed if the names it mentions read and its choices are found again. -/
theorem exists_select (hreads : ∀ name ∈ selection.mentioned, Reads name)
    (hcomplete : selection.Complete) : ∃ t, select selection = .ok t := by
  cases selection with
  | unset => exact ⟨_, rfl⟩
  | flag on =>
    cases on with
    | false => exact ⟨_, rfl⟩
    | true => exact ⟨_, rfl⟩
  | all => exact ⟨_, rfl⟩
  | listed names =>
    rw [Selection.mentioned] at hreads
    obtain ⟨components, hread, -⟩ := exists_readNames "generate" hreads
    rw [select, hread]
    exact ⟨_, rfl⟩
  | chosen choices =>
    rw [Selection.mentioned] at hreads
    obtain ⟨components, hread, hnames⟩ := exists_readNames "generate" hreads
    rw [select, hread]
    apply exists_choose
    intro c hc
    have hmem : c.name ∈ (choices.map Prod.fst).map strip := by
      rw [← hnames]
      exact List.mem_map_of_mem hc
    obtain ⟨key, hkey, heq⟩ := List.mem_map.1 hmem
    rw [← heq]
    exact hcomplete key hkey

/-- A mentioned name that does not read is the reason why a selection is not followed. -/
theorem select_of_not_reads (h : ∃ name ∈ selection.mentioned, ¬Reads name) :
    ∃ name, select selection = .error (.unknown name "generate") := by
  obtain ⟨name, hname, -⟩ := id h
  cases selection with
  | listed names =>
    rw [Selection.mentioned] at h
    obtain ⟨unread, herror⟩ := readNames_of_not_reads "generate" h
    exact ⟨unread, by rw [select, herror]; rfl⟩
  | chosen choices =>
    rw [Selection.mentioned] at h
    obtain ⟨unread, herror⟩ := readNames_of_not_reads "generate" h
    exact ⟨unread, by rw [select, herror]; rfl⟩
  | _ => cases hname

/-- If all names read, only a choice that is not found again is in the way. -/
theorem select_of_not_complete (hreads : ∀ name ∈ selection.mentioned, Reads name)
    (hcomplete : ¬selection.Complete) : ∃ name, select selection = .error (.padded name) := by
  cases selection with
  | chosen choices =>
    rw [Selection.mentioned] at hreads
    obtain ⟨components, hread, hnames⟩ := exists_readNames "generate" hreads
    rw [select, hread]
    apply choose_of_not_mem
    by_contra hno
    push Not at hno
    apply hcomplete
    intro key hkey
    have hmem : strip key ∈ components.map Component.name := by
      rw [hnames]
      exact List.mem_map_of_mem hkey
    obtain ⟨c, hc, heq⟩ := List.mem_map.1 hmem
    rw [← heq]
    exact hno c hc
  | _ => exact absurd trivial hcomplete

/-- The components of an entity can be worked out if all their names read and the choices are found
again. -/
theorem exists_resolve {without : List String}
    (hreads : ∀ name ∈ selection.mentioned ++ without, Reads name)
    (hcomplete : selection.Complete) : ∃ t, resolve selection without = .ok t := by
  obtain ⟨t, ht⟩ := exists_select (fun name hname ↦ hreads name (List.mem_append_left _ hname))
    hcomplete
  obtain ⟨components, hread, -⟩ := exists_readNames "generate_except"
    fun name hname ↦ hreads name (List.mem_append_right _ hname)
  refine ⟨components.foldl (fun t c ↦ t.set c false) t, ?_⟩
  rw [resolve, ht]
  change leaveOut t without = _
  rw [leaveOut, hread]
  rfl

theorem resolve_of_select_error {reason : SelectionError} (without : List String)
    (h : select selection = .error reason) : resolve selection without = .error reason := by
  rw [resolve, h]
  rfl

/-- If the selection is followed, what is left out can still have a name that does not read. -/
theorem resolve_of_not_reads_except {without : List String} {t : Toggles}
    (ht : select selection = .ok t) (h : ∃ name ∈ without, ¬Reads name) :
    ∃ name, resolve selection without = .error (.unknown name "generate_except") := by
  obtain ⟨unread, herror⟩ := readNames_of_not_reads "generate_except" h
  refine ⟨unread, ?_⟩
  rw [resolve, ht]
  change leaveOut t without = _
  rw [leaveOut, herror]
  rfl

end Toggles

/-! ## Validation -/

namespace Validation

/-- Components are only ever refused. -/
theorem level_of_mem_checkComponents (schema : Schema) :
    ∀ i ∈ checkComponents schema, i.level = .error := by
  intro i hi
  obtain ⟨e, -, hi⟩ := List.mem_flatMap.1 hi
  obtain ⟨name, -, hi⟩ := List.mem_filterMap.1 hi
  split at hi
  · cases hi
  · cases hi
    rfl

/-- The check on components finds nothing exactly if all names are known as they stand. -/
theorem checkComponents_eq_nil_iff {schema : Schema} :
    checkComponents schema = [] ↔
      ∀ e ∈ schema, ∀ name ∈ e.2.generate.mentioned ++ e.2.generateExcept, IsKnown name := by
  rw [checkComponents, List.flatMap_eq_nil_iff]
  apply forall₂_congr
  intro e he
  rw [List.filterMap_eq_nil_iff]
  apply forall₂_congr
  intro name hname
  unfold IsKnown
  split
  · next h => exact iff_of_true rfl h
  · next h => exact iff_of_false (by simp) h

end Validation

/-! ## The two together -/

/-- Working out the components of the entity comes to an end that its caller knows of, and it
succeeds exactly if the check on components has no objection. -/
def ChecksAgree (name : String) (e : Entity) : Prop :=
  (∀ reason, Toggles.resolve e.generate e.generateExcept = .error reason →
    reason.level = .invalid) ∧
  ((∃ t, Toggles.resolve e.generate e.generateExcept = .ok t) ↔
    ∀ i ∈ Validation.checkComponents [(name, e)], i.level = .warning)

theorem checkComponents_fine_iff {name : String} {e : Entity} :
    (∀ i ∈ Validation.checkComponents [(name, e)], i.level = .warning) ↔
      ∀ component ∈ e.generate.mentioned ++ e.generateExcept, IsKnown component := by
  have hnil : (∀ i ∈ Validation.checkComponents [(name, e)], i.level = .warning) ↔
      Validation.checkComponents [(name, e)] = [] := by
    constructor
    · intro h
      rw [List.eq_nil_iff_forall_not_mem]
      intro i hi
      have hlevel := Validation.level_of_mem_checkComponents _ i hi
      rw [h i hi] at hlevel
      cases hlevel
    · intro h i hi
      rw [h] at hi
      cases hi
  rw [hnil, Validation.checkComponents_eq_nil_iff, List.forall_mem_singleton]

/-- Names that are known as they stand are worked out, and both sides are content. -/
theorem checksAgree_of_isKnown (name : String) {e : Entity}
    (h : ∀ component ∈ e.generate.mentioned ++ e.generateExcept, IsKnown component) :
    ChecksAgree name e := by
  have hcomplete : e.generate.Complete :=
    Selection.complete_of_isKnown fun n hn ↦ h n (List.mem_append_left _ hn)
  obtain ⟨t, ht⟩ := Toggles.exists_resolve (fun n hn ↦ (h n hn).reads) hcomplete
  constructor
  · intro reason herror
    rw [ht] at herror
    cases herror
  · exact iff_of_true ⟨t, ht⟩ (checkComponents_fine_iff.2 h)

/-- If working out stops at an unknown name, both sides agree exactly if one is refused. -/
theorem checksAgree_of_unknown (name : String) {e : Entity} {component source : String}
    (h : Toggles.resolve e.generate e.generateExcept = .error (.unknown component source))
    (hunread : ∃ n ∈ e.generate.mentioned ++ e.generateExcept, ¬Reads n) : ChecksAgree name e := by
  constructor
  · intro reason herror
    rw [h] at herror
    cases herror
    rfl
  · apply iff_of_false
    · intro hok
      obtain ⟨t, ht⟩ := hok
      rw [h] at ht
      cases ht
    · intro hfine
      obtain ⟨n, hn, hno⟩ := hunread
      exact hno (checkComponents_fine_iff.1 hfine n hn).reads

/-- The two looks at the components of an entity come to the same conclusion in three cases only:
all names are known as they stand; a name that is selected is not even known without its blanks; or
every choice is found again and a name that is left out is not known. -/
theorem checksAgree_iff (name : String) (e : Entity) :
    ChecksAgree name e ↔
      (∀ n ∈ e.generate.mentioned ++ e.generateExcept, IsKnown n) ∨
      (∃ n ∈ e.generate.mentioned, ¬Reads n) ∨
      (e.generate.Complete ∧ ∃ n ∈ e.generateExcept, ¬Reads n) := by
  by_cases hmentioned : ∃ n ∈ e.generate.mentioned, ¬Reads n
  · apply iff_of_true _ (.inr (.inl hmentioned))
    obtain ⟨unread, herror⟩ := Toggles.select_of_not_reads hmentioned
    apply checksAgree_of_unknown name (Toggles.resolve_of_select_error _ herror)
    obtain ⟨n, hn, hno⟩ := hmentioned
    exact ⟨n, List.mem_append_left _ hn, hno⟩
  · have hreads : ∀ n ∈ e.generate.mentioned, Reads n := by
      push Not at hmentioned
      exact hmentioned
    by_cases hcomplete : e.generate.Complete
    · by_cases hexcept : ∃ n ∈ e.generateExcept, ¬Reads n
      · apply iff_of_true _ (.inr (.inr ⟨hcomplete, hexcept⟩))
        obtain ⟨t, ht⟩ := Toggles.exists_select hreads hcomplete
        obtain ⟨unread, herror⟩ := Toggles.resolve_of_not_reads_except ht hexcept
        apply checksAgree_of_unknown name herror
        obtain ⟨n, hn, hno⟩ := hexcept
        exact ⟨n, List.mem_append_right _ hn, hno⟩
      · -- Everything is worked out, so it depends on validation alone.
        have hall : ∀ n ∈ e.generate.mentioned ++ e.generateExcept, Reads n := by
          push Not at hexcept
          exact List.forall_mem_append.2 ⟨hreads, hexcept⟩
        obtain ⟨t, ht⟩ := Toggles.exists_resolve hall hcomplete
        constructor
        · intro hagree
          exact .inl (checkComponents_fine_iff.1 (hagree.2.1 ⟨t, ht⟩))
        · intro h
          apply checksAgree_of_isKnown
          rcases h with h | h | ⟨-, h⟩
          · exact h
          · exact absurd h hmentioned
          · exact absurd h hexcept
    · -- A choice is not found again: a failure that nobody expects.
      obtain ⟨key, herror⟩ := Toggles.select_of_not_complete hreads hcomplete
      apply iff_of_false
      · intro hagree
        have hlevel := hagree.1 _ (Toggles.resolve_of_select_error _ herror)
        cases hlevel
      · intro h
        rcases h with h | h | ⟨h, -⟩
        · exact hcomplete (Selection.complete_of_isKnown fun n hn ↦
            h n (List.mem_append_left _ hn))
        · exact hmentioned h
        · exact hcomplete h

/-- A name with a blank before it is read in a list, though validation refuses it. -/
example : (Toggles.resolve (.listed [" model"]) []).isOk = true ∧ ¬IsKnown " model" := by
  constructor
  · rfl
  · unfold IsKnown
    decide

/-- In a mapping it is not found again. -/
example : Toggles.resolve (.chosen [(" model", true)]) [] = .error (.padded "model") := rfl

end Scaffold
