import Scaffold.Proofs.Nesting.Descent

/-!
# Nothing shows what a resolver remembers

A resolver reads the relations and the fields under a name once, and it gives every warning once.
Still each of its answers, an error included, is that of a resolver that remembers nothing yet,
and the warnings it has given are those that such resolvers give.

The memories that a resolver comes to are faithful (`Memory.Faithful`): what they hold is what would
be worked out afresh, and the messages that came with it have been given. A computation that ends the
same way from every faithful memory is oblivious (`Oblivious`), which is kept by all ways of putting
computations together.
-/

namespace Scaffold

variable {ε ε' α β : Type} {schema : Schema} {m m' m'' : Memory} {messages messages' : List String}

/-- The messages that come with the relations under a name when they are read. -/
def Schema.complaintsOf (schema : Schema) (name : String) : List String :=
  (Relation.readAll (Name.studly name)
    (((schema.find? (Name.studly name)).map (·.relations)).getD [])).2

namespace Memory

/-- A memory that a resolver can come to: it holds what would be worked out afresh, the messages that
came with it have been given, and no message has been given twice. -/
structure Faithful (schema : Schema) (m : Memory) : Prop extends Memory.Sound schema m where
  given : ∀ name rs, m.relations.lookup (Name.studly name) = some rs →
    schema.complaintsOf name ⊆ m.warnings
  nodup : m.warnings.Nodup

theorem faithful_empty (schema : Schema) : Memory.empty.Faithful schema where
  toSound := Memory.sound_empty schema
  given := by simp [Memory.empty]
  nodup := List.nodup_nil

/-- The log is not part of what is remembered. -/
theorem Faithful.of_log (h : m.Faithful schema) (log : List LogLine) :
    ({ m with log } : Memory).Faithful schema where
  relations := h.relations
  fields := h.fields
  given := h.given
  nodup := h.nodup

/-- The messages have been given between two memories, each unless it was given before. -/
structure Warned (messages : List String) (m m' : Memory) : Prop where
  isPrefix : m.warnings <+: m'.warnings
  mem_iff : ∀ w, w ∈ m'.warnings ↔ w ∈ m.warnings ∨ w ∈ messages
  nodup : m.warnings.Nodup → m'.warnings.Nodup

theorem Warned.refl (h : messages ⊆ m.warnings) : Warned messages m m where
  isPrefix := List.prefix_rfl
  mem_iff _ := ⟨.inl, fun hw ↦ hw.elim id fun hw ↦ h hw⟩
  nodup := id

theorem Warned.trans (h : Warned messages m m') (h' : Warned messages' m' m'') :
    Warned (messages ++ messages') m m'' where
  isPrefix := h.isPrefix.trans h'.isPrefix
  mem_iff w := by rw [h'.mem_iff, h.mem_iff, List.mem_append, or_assoc]
  nodup hm := h'.nodup (h.nodup hm)

/-- Giving messages changes nothing of what has been read. -/
theorem Faithful.of_warned (h : m.Faithful schema) (hw : Warned messages m m')
    (hrelations : m'.relations = m.relations) (hfields : m'.fields = m.fields) :
    m'.Faithful schema where
  relations := by
    rw [hrelations]
    exact h.relations
  fields := by
    rw [hfields]
    exact h.fields
  given name rs hrs := by
    rw [hrelations] at hrs
    exact List.Subset.trans (h.given name rs hrs) hw.isPrefix.subset
  nodup := hw.nodup h.nodup

end Memory

open Memory (Warned)

/-! ## Oblivious computations -/

/-- Whatever a resolver remembers, the computation has the given result, gives the given messages and
leaves a memory that a resolver can come to. -/
def Settles (schema : Schema) (x : ExceptT ε (StateM Memory) α) (result : Except ε α)
    (messages : List String) : Prop :=
  ∀ m : Memory, m.Faithful schema →
    Ends x m (fun a t ↦ result = .ok a ∧ Warned messages m t ∧ t.Faithful schema)
      fun e t ↦ result = .error e ∧ Warned messages m t ∧ t.Faithful schema

/-- The result of a computation and the messages that it gives do not depend on what is
remembered. -/
def Oblivious (schema : Schema) (x : ExceptT ε (StateM Memory) α) : Prop :=
  ∃ result messages, Settles schema x result messages

section Rules

variable {x : ExceptT ε (StateM Memory) α} {f : α → ExceptT ε (StateM Memory) β} {a : α} {e : ε}
  {result : Except ε β}

theorem Settles.oblivious {result : Except ε α} (h : Settles schema x result messages) :
    Oblivious schema x := ⟨result, messages, h⟩

theorem settles_pure (schema : Schema) (a : α) :
    Settles schema (pure a : ExceptT ε (StateM Memory) α) (.ok a) [] := by
  intro m h
  rw [ends_pure]
  exact ⟨rfl, .refl (List.nil_subset _), h⟩

theorem settles_throw (schema : Schema) (e : ε) :
    Settles schema (throw e : ExceptT ε (StateM Memory) α) (.error e) [] := by
  intro m h
  rw [ends_throw]
  exact ⟨rfl, .refl (List.nil_subset _), h⟩

theorem Settles.bind (hx : Settles schema x (.ok a) messages)
    (hf : Settles schema (f a) result messages') :
    Settles schema (x >>= f) result (messages ++ messages') := by
  intro m h
  rw [ends_bind]
  apply (hx m h).mono
  · rintro a' t ⟨ha, hwarned, ht⟩
    cases ha
    apply (hf t ht).mono
    · rintro b u ⟨hb, hwarned', hu⟩
      exact ⟨hb, hwarned.trans hwarned', hu⟩
    · rintro e u ⟨he, hwarned', hu⟩
      exact ⟨he, hwarned.trans hwarned', hu⟩
  · rintro e t ⟨he, _⟩
    cases he

theorem Settles.bind_error (f : α → ExceptT ε (StateM Memory) β)
    (hx : Settles schema x (.error e) messages) :
    Settles schema (x >>= f) (.error e) messages := by
  intro m h
  rw [ends_bind]
  apply (hx m h).mono
  · rintro a t ⟨ha, _⟩
    cases ha
  · rintro e' t ⟨he, ht⟩
    cases he
    exact ⟨rfl, ht⟩

theorem Settles.adapt {result : Except ε α} (cause : ε → ε')
    (hx : Settles schema x result messages) :
    Settles schema (ExceptT.adapt cause x) (result.mapError cause) messages := by
  intro m h
  rw [ends_adapt]
  apply (hx m h).mono
  · rintro a t ⟨ha, ht⟩
    exact ⟨congrArg (Except.mapError cause) ha, ht⟩
  · rintro e t ⟨he, ht⟩
    exact ⟨congrArg (Except.mapError cause) he, ht⟩

theorem oblivious_pure (schema : Schema) (a : α) :
    Oblivious schema (pure a : ExceptT ε (StateM Memory) α) := (settles_pure schema a).oblivious

theorem oblivious_throw (schema : Schema) (e : ε) :
    Oblivious schema (throw e : ExceptT ε (StateM Memory) α) := (settles_throw schema e).oblivious

theorem Oblivious.bind (hx : Oblivious schema x) (hf : ∀ a, Oblivious schema (f a)) :
    Oblivious schema (x >>= f) := by
  obtain ⟨e | a, messages, hx⟩ := hx
  · exact (hx.bind_error f).oblivious
  · obtain ⟨result, messages', hf⟩ := hf a
    exact (hx.bind hf).oblivious

theorem Oblivious.adapt (cause : ε → ε') (hx : Oblivious schema x) :
    Oblivious schema (ExceptT.adapt cause x) := by
  obtain ⟨result, messages, hx⟩ := hx
  exact (hx.adapt cause).oblivious

theorem Oblivious.mapM (hf : ∀ a, Oblivious schema (f a)) (l : List α) :
    Oblivious schema (l.mapM f) := by
  induction l with
  | nil => exact oblivious_pure schema []
  | cons a rest ih =>
    rw [List.mapM_cons]
    exact (hf a).bind fun b ↦ ih.bind fun bs ↦ oblivious_pure schema (b :: bs)

theorem Oblivious.foldlM {step : β → α → ExceptT ε (StateM Memory) β}
    (h : ∀ b a, Oblivious schema (step b a)) (l : List α) (b : β) :
    Oblivious schema (l.foldlM step b) := by
  induction l generalizing b with
  | nil => exact oblivious_pure schema b
  | cons a rest ih =>
    rw [List.foldlM_cons]
    exact (h b a).bind ih

theorem Settles.run_eq {result : Except ε α} (hx : Settles schema x result messages)
    (h : m.Faithful schema) :
    (x.run.run m).1 = result ∧ Warned messages m (x.run.run m).2 ∧
      (x.run.run m).2.Faithful schema := by
  rcases run_ok_or_error x m with ⟨a, t, hrun⟩ | ⟨e, t, hrun⟩
  · have hends := (ends_of_run_ok hrun).1 (hx m h)
    rw [hrun]
    exact ⟨hends.1.symm, hends.2⟩
  · have hends := (ends_of_run_error hrun).1 (hx m h)
    rw [hrun]
    exact ⟨hends.1.symm, hends.2⟩

/-- The computation ends as it does when nothing is remembered. -/
theorem Oblivious.run_eq (hx : Oblivious schema x) (h : m.Faithful schema) :
    (x.run.run m).1 = (x.run.run Memory.empty).1 ∧
      Warned (x.run.run Memory.empty).2.warnings m (x.run.run m).2 ∧
        (x.run.run m).2.Faithful schema := by
  obtain ⟨result, messages, hsettles⟩ := hx
  obtain ⟨hresult, hwarned, -⟩ := hsettles.run_eq (Memory.faithful_empty schema)
  obtain ⟨hresult', hwarned', hfaithful⟩ := hsettles.run_eq h
  refine ⟨hresult'.trans hresult.symm, ⟨hwarned'.isPrefix, ?_, hwarned'.nodup⟩, hfaithful⟩
  intro w
  rw [hwarned'.mem_iff, hwarned.mem_iff]
  simp [Memory.empty]

end Rules

/-! ## What a resolver is asked -/

namespace Resolve

/-- A message is given unless it was given before, and nothing else changes. -/
theorem ends_warn_warned (message : String) (m : Memory) :
    Ends (warn message) m
      (fun _ t ↦ Warned [message] m t ∧ t.relations = m.relations ∧ t.fields = m.fields)
      fun _ _ ↦ False := by
  rw [warn, ends_bind, ends_get]
  split
  · rename_i hgiven
    rw [List.contains_iff_mem] at hgiven
    rw [ends_pure]
    exact ⟨.refl (by simpa using hgiven), rfl, rfl⟩
  · rename_i hnew
    rw [List.contains_iff_mem] at hnew
    rw [ends_set]
    refine ⟨⟨List.prefix_append _ _, fun w ↦ List.mem_append, fun hnodup ↦ ?_⟩, rfl, rfl⟩
    rw [List.nodup_append]
    refine ⟨hnodup, by simp, ?_⟩
    intro w hw w' hw' heq
    rw [List.mem_singleton] at hw'
    exact hnew (hw' ▸ heq ▸ hw)

theorem ends_warnAll_warned (messages : List String) (m : Memory) :
    Ends (warnAll messages) m
      (fun _ t ↦ Warned messages m t ∧ t.relations = m.relations ∧ t.fields = m.fields)
      fun _ _ ↦ False := by
  induction messages generalizing m with
  | nil => exact (ends_pure _).2 ⟨.refl (List.nil_subset _), rfl, rfl⟩
  | cons message rest ih =>
    rw [warnAll, ends_bind]
    apply (ends_warn_warned message m).mono
    · rintro _ t ⟨hwarned, hrelations, hfields⟩
      apply (ih t).mono
      · rintro _ u ⟨hwarned', hrelations', hfields'⟩
        exact ⟨hwarned.trans hwarned', hrelations'.trans hrelations, hfields'.trans hfields⟩
      · intro _ _
        exact id
    · intro _ _
      exact id

theorem oblivious_warn (schema : Schema) (message : String) : Oblivious schema (warn message) := by
  refine ⟨.ok (), [message], fun m h ↦ ?_⟩
  apply (ends_warn_warned message m).mono
  · rintro _ t ⟨hwarned, hrelations, hfields⟩
    exact ⟨rfl, hwarned, h.of_warned hwarned hrelations hfields⟩
  · intro _ _
    exact False.elim

/-- What has been read under a name is faithful once the messages that come with it are given. -/
theorem faithful_of_relations {name : String} (h : m.Faithful schema)
    (hwarned : Warned (schema.complaintsOf name) m m')
    (hrelations : m'.relations = (Name.studly name, schema.relationsOf name) :: m.relations)
    (hfields : m'.fields = m.fields) : m'.Faithful schema where
  relations := by
    rw [hrelations]
    exact (h.toSound.add_relations name).relations
  fields := by
    rw [hfields]
    exact h.fields
  given other rs hrs := by
    rw [hrelations] at hrs
    rcases lookup_cons_studly hrs with ⟨heq, -⟩ | hrs
    · intro w hw
      unfold Schema.complaintsOf at hw
      rw [heq] at hw
      exact (hwarned.mem_iff w).2 (.inr hw)
    · exact List.Subset.trans (h.given other rs hrs) hwarned.isPrefix.subset
  nodup := hwarned.nodup h.nodup

/-- The relations under a name, and the messages about them. -/
theorem settles_relations (schema : Schema) (name : String) :
    Settles schema (relations schema name) (.ok (schema.relationsOf name))
      (schema.complaintsOf name) := by
  intro m h
  rw [relations, ends_bind, ends_get]
  cases hknown : m.relations.lookup (Name.studly name) with
  | some known =>
    apply (ends_pure known).2
    exact ⟨congrArg _ (h.relations name known hknown).symm, .refl (h.given name known hknown), h⟩
  | none =>
    simp only [ends_bind, ends_modify, ends_pure]
    apply (ends_warnAll_warned _ _).mono
    · rintro _ t ⟨hwarned, hrelations, hfields⟩
      -- The relations are stored before the messages about them are given.
      have hgiven : Warned (schema.complaintsOf name) m t :=
        ⟨hwarned.isPrefix, hwarned.mem_iff, hwarned.nodup⟩
      have hread : (Relation.readAll (Name.studly name)
          (((schema.find? (Name.studly name)).map (·.relations)).getD [])).1 =
            schema.relationsOf name := Relation.readAll_owner _ _ _
      rw [hread] at hrelations ⊢
      exact ⟨rfl, hgiven, faithful_of_relations h hgiven hrelations hfields⟩
    · intro _ _
      exact False.elim

/-- The fields under a name, or why they cannot be read. -/
theorem settles_fields (schema : Schema) (name : String) :
    Settles schema (fields schema name)
      ((Field.parseAll (schema.definitionsOf name)).mapError .field) [] := by
  intro m h
  rw [fields, ends_bind, ends_get]
  cases hknown : m.fields.lookup (Name.studly name) with
  | some known =>
    rw [h.fields name known hknown]
    exact (ends_pure known).2 ⟨rfl, .refl (List.nil_subset _), h⟩
  | none =>
    rcases hparse : Field.parseAll (schema.definitionsOf name) with reason | found
    · have hthrow := hparse
      unfold Schema.definitionsOf at hthrow
      simp only [hthrow, ends_throw]
      exact ⟨rfl, .refl (List.nil_subset _), h⟩
    · have hstore := hparse
      unfold Schema.definitionsOf at hstore
      simp only [hstore, ends_bind, ends_modify, ends_pure]
      exact ⟨rfl, ⟨List.prefix_rfl, fun w ↦ by simp, id⟩, h.toSound.add_fields hparse, h.given,
        h.nodup⟩

theorem oblivious_select (schema : Schema) (studly : String) (relations : List Relation)
    (requests : List String) (chosen : List Relation) :
    Oblivious schema (select studly relations requests chosen) := by
  induction requests generalizing chosen with
  | nil => exact oblivious_pure schema chosen
  | cons request rest ih =>
    unfold select
    split
    · exact (oblivious_warn schema _).bind fun _ ↦ ih chosen
    · split
      · exact (oblivious_warn schema _).bind fun _ ↦ ih chosen
      · split
        · exact ih chosen
        · exact ih _

theorem oblivious_nested (schema : Schema) (name : String) : Oblivious schema (nested schema name) := by
  unfold nested
  dsimp only
  split
  · exact oblivious_pure schema []
  · exact (settles_relations schema _).oblivious.bind fun known ↦
      oblivious_select schema _ known _ []

theorem oblivious_treeTo (schema : Schema) (depth : ℕ) (name : String) (visited : List String) :
    Oblivious schema (treeTo schema depth name visited) := by
  induction depth generalizing name visited with
  | zero => exact oblivious_throw schema _
  | succ depth ih =>
    rw [treeTo_succ]
    apply (oblivious_nested schema _).bind
    intro rs
    apply Oblivious.mapM
    intro r
    unfold node
    dsimp only
    split
    · exact oblivious_pure schema _
    · split
      · exact (oblivious_warn schema _).bind fun _ ↦ oblivious_pure schema _
      · apply (settles_fields schema r.target).oblivious.bind
        intro found
        split
        · exact oblivious_pure schema _
        · exact (ih _ _).bind fun _ ↦ oblivious_pure schema _

theorem oblivious_relatedTo (schema : Schema) (depth : ℕ) (name : String) (seen : List String) :
    Oblivious schema (relatedTo schema depth name seen) := by
  induction depth generalizing name seen with
  | zero => exact oblivious_throw schema _
  | succ depth ih =>
    rw [relatedTo_succ]
    apply (oblivious_nested schema _).bind
    intro rs
    apply Oblivious.foldlM
    intro acc r
    unfold visit
    dsimp only
    split
    · exact oblivious_pure schema _
    · split
      · exact oblivious_pure schema _
      · exact (ih _ _).bind fun _ ↦ oblivious_pure schema _

theorem oblivious_related (schema : Schema) (name : String) (visited : List String) :
    Oblivious schema (related schema name visited) :=
  (oblivious_relatedTo schema _ name visited).bind fun _ ↦ oblivious_pure schema _

/-! ## Calls -/

/-- A question to a resolver. -/
inductive Call where
  | has (name : String)
  | definition (name : String)
  | relations (name : String)
  | fields (name : String)
  | nested (name : String)
  | tree (name : String) (visited : List String)
  | related (name : String) (visited : List String)

/-- The answer to a question. -/
inductive Answer where
  | has (isDefined : Bool)
  | definition (entity : Option Entity)
  | relations (found : List Relation)
  | fields (found : List Field)
  | nested (found : List Relation)
  | tree (roots : List NestedRelation)
  /-- The related entities, and all names that have been visited by then. -/
  | related (names visited : List String)

/-- What a resolver does to answer. -/
def Call.ask (schema : Schema) : Call → Resolve Answer
  | .has name => return .has (schema.has name)
  | .definition name => return .definition (schema.find? name)
  | .relations name => return .relations (← Resolve.relations schema name)
  | .fields name => return .fields (← Resolve.fields schema name)
  | .nested name => return .nested (← Resolve.nested schema name)
  | .tree name visited => return .tree (← Resolve.tree schema name visited)
  | .related name visited => do
    let (names, visited) ← relatedTo schema (enough schema) name visited
    return .related names visited

/-- The answer of a resolver that remembers nothing yet, and what it remembers then. -/
def Call.afresh (schema : Schema) (call : Call) : Except ResolveError Answer × Memory :=
  (call.ask schema).run.run Memory.empty

/-- The answers of one resolver to questions in a row. It goes on after an error. -/
def askAll (schema : Schema) : List Call → Memory → List (Except ResolveError Answer) × Memory
  | [], m => ([], m)
  | call :: rest, m =>
    let (answer, m) := (call.ask schema).run.run m
    let (answers, m) := askAll schema rest m
    (answer :: answers, m)

theorem oblivious_ask (schema : Schema) (call : Call) : Oblivious schema (call.ask schema) := by
  cases call with
  | has name => exact oblivious_pure schema _
  | definition name => exact oblivious_pure schema _
  | relations name =>
    exact (settles_relations schema name).oblivious.bind fun _ ↦ oblivious_pure schema _
  | fields name => exact (settles_fields schema name).oblivious.bind fun _ ↦ oblivious_pure schema _
  | nested name => exact (oblivious_nested schema name).bind fun _ ↦ oblivious_pure schema _
  | tree name visited =>
    exact (oblivious_treeTo schema _ name visited).bind fun _ ↦ oblivious_pure schema _
  | related name visited =>
    exact (oblivious_relatedTo schema _ name visited).bind fun _ ↦ oblivious_pure schema _

theorem askAll_append (schema : Schema) (before after : List Call) (m : Memory) :
    (askAll schema (before ++ after) m).2 = (askAll schema after (askAll schema before m).2).2 := by
  induction before generalizing m with
  | nil => rfl
  | cons call rest ih =>
    rw [List.cons_append, askAll, askAll]
    exact ih _

/-- From a faithful memory questions are answered as they are afresh, and the messages that are given
afresh are given. -/
theorem askAll_of_faithful (calls : List Call) (h : m.Faithful schema) :
    (askAll schema calls m).1 = calls.map (fun call ↦ (call.afresh schema).1) ∧
      Warned (calls.flatMap fun call ↦ (call.afresh schema).2.warnings) m
        (askAll schema calls m).2 ∧
        (askAll schema calls m).2.Faithful schema := by
  induction calls generalizing m with
  | nil => exact ⟨rfl, .refl (List.nil_subset _), h⟩
  | cons call rest ih =>
    obtain ⟨hanswer, hwarned, hfaithful⟩ := (oblivious_ask schema call).run_eq h
    obtain ⟨hanswers, hwarned', hfaithful'⟩ := ih hfaithful
    rw [askAll, List.map_cons, List.flatMap_cons]
    exact ⟨congrArg₂ List.cons hanswer hanswers, hwarned.trans hwarned', hfaithful'⟩

/-- One resolver answers questions in a row as resolvers that remember nothing answer them, each
with the same result or the same error. Its warnings only grow at their end, none of them is given
twice, and they are those that such resolvers give. -/
theorem askAll_eq_afresh (schema : Schema) (calls : List Call) :
    (askAll schema calls Memory.empty).1 = calls.map (fun call ↦ (call.afresh schema).1) ∧
      (∀ before after, calls = before ++ after →
        (askAll schema before Memory.empty).2.warnings <+:
          (askAll schema calls Memory.empty).2.warnings) ∧
      (askAll schema calls Memory.empty).2.warnings.Nodup ∧
      ∀ message, message ∈ (askAll schema calls Memory.empty).2.warnings ↔
        ∃ call ∈ calls, message ∈ (call.afresh schema).2.warnings := by
  have hempty := Memory.faithful_empty schema
  obtain ⟨hanswers, hwarned, hfaithful⟩ := askAll_of_faithful calls hempty
  refine ⟨hanswers, ?_, hfaithful.nodup, ?_⟩
  · intro before after hcalls
    rw [hcalls, askAll_append]
    exact (askAll_of_faithful after (askAll_of_faithful before hempty).2.2).2.1.isPrefix
  · intro message
    rw [hwarned.mem_iff]
    simp [Memory.empty, List.mem_flatMap]

end Resolve

end Scaffold
