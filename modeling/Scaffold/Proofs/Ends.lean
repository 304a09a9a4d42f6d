import Mathlib

/-!
# How computations end

A computation with a state and failures ends well, with a value, or badly, with a failure; either
way it leaves a state. `Ends x s good bad` says what holds then. The rules below follow the
construction of a computation, so what is known of its parts is put together by rewriting.
-/

namespace Scaffold

variable {ε ε' σ α β : Type}

/-- From the state `s` the computation ends well in `good` or badly in `bad`. -/
def Ends (x : ExceptT ε (StateM σ) α) (s : σ) (good : α → σ → Prop) (bad : ε → σ → Prop) :
    Prop :=
  match x.run.run s with
  | (.ok a, t) => good a t
  | (.error e, t) => bad e t

variable {x : ExceptT ε (StateM σ) α} {s : σ} {good good' : α → σ → Prop} {bad bad' : ε → σ → Prop}

theorem ends_of_run_ok {a : α} {t : σ} (h : x.run.run s = (.ok a, t)) :
    Ends x s good bad ↔ good a t := by
  rw [Ends, h]

theorem ends_of_run_error {e : ε} {t : σ} (h : x.run.run s = (.error e, t)) :
    Ends x s good bad ↔ bad e t := by
  rw [Ends, h]

/-- A computation ends in one of two ways. -/
theorem run_ok_or_error (x : ExceptT ε (StateM σ) α) (s : σ) :
    (∃ a t, x.run.run s = (.ok a, t)) ∨ ∃ e t, x.run.run s = (.error e, t) := by
  rcases h : x.run.run s with ⟨a | e, t⟩
  · exact .inr ⟨_, _, rfl⟩
  · exact .inl ⟨_, _, rfl⟩

theorem Ends.mono (h : Ends x s good bad) (hgood : ∀ a t, good a t → good' a t)
    (hbad : ∀ e t, bad e t → bad' e t) : Ends x s good' bad' := by
  rcases run_ok_or_error x s with ⟨a, t, hx⟩ | ⟨e, t, hx⟩
  · rw [ends_of_run_ok hx] at h ⊢
    exact hgood a t h
  · rw [ends_of_run_error hx] at h ⊢
    exact hbad e t h

theorem Ends.and (h : Ends x s good bad) (h' : Ends x s good' bad') :
    Ends x s (fun a t ↦ good a t ∧ good' a t) fun e t ↦ bad e t ∧ bad' e t := by
  rcases run_ok_or_error x s with ⟨a, t, hx⟩ | ⟨e, t, hx⟩
  · rw [ends_of_run_ok hx] at h h' ⊢
    exact ⟨h, h'⟩
  · rw [ends_of_run_error hx] at h h' ⊢
    exact ⟨h, h'⟩

/-- How a computation ends under an assumption. -/
theorem Ends.imp {P : Prop} (h : P → Ends x s good bad) :
    Ends x s (fun a t ↦ P → good a t) fun e t ↦ P → bad e t := by
  rcases run_ok_or_error x s with ⟨a, t, hx⟩ | ⟨e, t, hx⟩
  · exact (ends_of_run_ok hx).2 fun hP ↦ (ends_of_run_ok hx).1 (h hP)
  · exact (ends_of_run_error hx).2 fun hP ↦ (ends_of_run_error hx).1 (h hP)

/-- The computation comes to a value. -/
def Returns (x : ExceptT ε (StateM σ) α) (s : σ) : Prop := ∃ a t, x.run.run s = (.ok a, t)

theorem returns_iff_ends : Returns x s ↔ Ends x s (fun _ _ ↦ True) fun _ _ ↦ False := by
  rcases run_ok_or_error x s with ⟨a, t, hx⟩ | ⟨e, t, hx⟩
  · rw [ends_of_run_ok hx]
    exact ⟨fun _ ↦ trivial, fun _ ↦ ⟨a, t, hx⟩⟩
  · rw [ends_of_run_error hx, iff_false]
    rintro ⟨a, u, hx'⟩
    rw [hx] at hx'
    cases hx'

theorem Ends.returns (h : Ends x s good fun _ _ ↦ False) : Returns x s :=
  returns_iff_ends.2 (h.mono (fun _ _ _ ↦ trivial) fun _ _ ↦ id)

theorem Ends.not_returns (h : Ends x s (fun _ _ ↦ False) bad) : ¬Returns x s := by
  rintro ⟨a, t, hx⟩
  exact (ends_of_run_ok hx).1 h

theorem ends_any (x : ExceptT ε (StateM σ) α) (s : σ) :
    Ends x s (fun _ _ ↦ True) fun _ _ ↦ True := by
  rcases run_ok_or_error x s with ⟨a, t, hx⟩ | ⟨e, t, hx⟩
  · exact (ends_of_run_ok hx).2 trivial
  · exact (ends_of_run_error hx).2 trivial

/-- What ends well comes to a value, and what ends badly comes to none. -/
theorem ends_returns (x : ExceptT ε (StateM σ) α) (s : σ) :
    Ends x s (fun _ _ ↦ Returns x s) fun _ _ ↦ ¬Returns x s := by
  rcases run_ok_or_error x s with ⟨a, t, hx⟩ | ⟨e, t, hx⟩
  · exact (ends_of_run_ok hx).2 ⟨a, t, hx⟩
  · have hfails : Ends x s (fun _ _ ↦ False) fun _ _ ↦ True := (ends_of_run_error hx).2 trivial
    exact (ends_of_run_error hx).2 hfails.not_returns

/-- What never ends badly has a value. -/
theorem Ends.exists_run (h : Ends x s good fun _ _ ↦ False) :
    ∃ a t, x.run.run s = (.ok a, t) ∧ good a t := by
  rcases run_ok_or_error x s with ⟨a, t, hx⟩ | ⟨e, t, hx⟩
  · exact ⟨a, t, hx, (ends_of_run_ok hx).1 h⟩
  · exact ((ends_of_run_error hx).1 h).elim

/-- Does the computation come to a value and a state that pass the test? -/
def passes (x : ExceptT ε (StateM σ) α) (s : σ) (test : α → σ → Bool) : Bool :=
  match x.run.run s with
  | (.ok a, t) => test a t
  | (.error _, _) => false

theorem exists_run_of_passes (x : ExceptT ε (StateM σ) α) (s : σ) (test : α → σ → Bool)
    (h : passes x s test = true) : ∃ a t, x.run.run s = (.ok a, t) ∧ test a t = true := by
  rcases run_ok_or_error x s with ⟨a, t, hx⟩ | ⟨e, t, hx⟩
  · rw [passes, hx] at h
    exact ⟨a, t, hx, h⟩
  · rw [passes, hx] at h
    cases h

/-! ## Rules -/

@[simp] theorem ends_pure (a : α) :
    Ends (pure a : ExceptT ε (StateM σ) α) s good bad ↔ good a s := Iff.rfl

@[simp] theorem ends_throw (e : ε) :
    Ends (throw e : ExceptT ε (StateM σ) α) s good bad ↔ bad e s := Iff.rfl

theorem run_bind_of_run_ok {a : α} {t : σ} (h : x.run.run s = (.ok a, t))
    (f : α → ExceptT ε (StateM σ) β) : (x >>= f).run.run s = (f a).run.run t := by
  simp only [ExceptT.run_bind, StateT.run_bind]
  rw [h]
  rfl

@[simp] theorem ends_bind (x : ExceptT ε (StateM σ) α) (f : α → ExceptT ε (StateM σ) β)
    {good : β → σ → Prop} :
    Ends (x >>= f) s good bad ↔ Ends x s (fun a t ↦ Ends (f a) t good bad) bad := by
  rcases run_ok_or_error x s with ⟨a, t, hx⟩ | ⟨e, t, hx⟩
  · rw [ends_of_run_ok hx, Ends, Ends, run_bind_of_run_ok hx]
  · rw [ends_of_run_error hx]
    have : (x >>= f).run.run s = (.error e, t) := by
      simp only [ExceptT.run_bind, StateT.run_bind]
      rw [hx]
      rfl
    rw [ends_of_run_error this]

/-- What is known after the first part is what the second one starts from. -/
theorem Ends.bind {f : α → ExceptT ε (StateM σ) β} {between : α → σ → Prop} {good : β → σ → Prop}
    (h : Ends x s between bad) (hnext : ∀ a t, between a t → Ends (f a) t good bad) :
    Ends (x >>= f) s good bad := by
  rw [ends_bind]
  exact h.mono hnext fun _ _ ↦ id

@[simp] theorem ends_map (f : α → β) (x : ExceptT ε (StateM σ) α) {good : β → σ → Prop} :
    Ends (f <$> x) s good bad ↔ Ends x s (fun a t ↦ good (f a) t) bad := by
  rw [map_eq_pure_bind, ends_bind]
  rfl

@[simp] theorem ends_get {good : σ → σ → Prop} :
    Ends (get : ExceptT ε (StateM σ) σ) s good bad ↔ good s s := Iff.rfl

@[simp] theorem ends_set (t : σ) {good : PUnit → σ → Prop} :
    Ends (set t : ExceptT ε (StateM σ) PUnit) s good bad ↔ good ⟨⟩ t := Iff.rfl

@[simp] theorem ends_modify (f : σ → σ) {good : PUnit → σ → Prop} :
    Ends (modify f : ExceptT ε (StateM σ) PUnit) s good bad ↔ good ⟨⟩ (f s) := Iff.rfl

@[simp] theorem ends_tryCatch (x : ExceptT ε (StateM σ) α) (handle : ε → ExceptT ε (StateM σ) α) :
    Ends (tryCatch x handle) s good bad ↔
      Ends x s good fun e t ↦ Ends (handle e) t good bad := by
  have hrun : (tryCatch x handle).run.run s =
      match x.run.run s with
      | (.ok a, t) => (.ok a, t)
      | (.error e, t) => (handle e).run.run t := by
    have hdef : (tryCatch x handle).run = x.run >>= fun result ↦
        match result with
        | .ok a => pure (.ok a)
        | .error e => (handle e).run := rfl
    rw [hdef, StateT.run_bind]
    rcases x.run.run s with ⟨e | a, t⟩ <;> rfl
  rcases run_ok_or_error x s with ⟨a, t, hx⟩ | ⟨e, t, hx⟩
  · rw [ends_of_run_ok hx, ends_of_run_ok (hrun.trans (by rw [hx]))]
  · rw [ends_of_run_error hx, Ends, Ends, hrun, hx]

theorem ends_adapt (f : ε → ε') (x : ExceptT ε (StateM σ) α) {bad : ε' → σ → Prop} :
    Ends (ExceptT.adapt f x) s good bad ↔ Ends x s good fun e t ↦ bad (f e) t := by
  have hrun : (ExceptT.adapt f x).run.run s =
      ((x.run.run s).1.mapError f, (x.run.run s).2) := rfl
  rcases run_ok_or_error x s with ⟨a, t, hx⟩ | ⟨e, t, hx⟩
  · rw [ends_of_run_ok hx, ends_of_run_ok (hrun.trans (by rw [hx]; rfl))]
  · rw [ends_of_run_error hx, ends_of_run_error (hrun.trans (by rw [hx]; rfl))]

-- From here on only the rules are used: a computation is never run to see how it ends.
attribute [irreducible] Ends

/-! ## Results -/

theorem bind_eq_ok_iff {x : Except ε α} {f : α → Except ε β} {b : β} :
    (x >>= f) = .ok b ↔ ∃ a, x = .ok a ∧ f a = .ok b := by
  rcases x with e | a <;> simp [bind, Except.bind]

/-- Another failure in the place of a failure makes no result. -/
theorem mapError_eq_ok_iff {x : Except ε α} {f : ε → ε'} {a : α} :
    x.mapError f = .ok a ↔ x = .ok a := by
  rcases x with e | b <;> simp [Except.mapError]

/-! ## Lists -/

/-- A list is gone through without a failure exactly if there is a result for each element. -/
theorem mapM_eq_ok_iff {f : α → Except ε β} {l : List α} {bs : List β} :
    l.mapM f = .ok bs ↔ List.Forall₂ (fun a b ↦ f a = .ok b) l bs := by
  induction l generalizing bs with
  | nil => simp [pure, Except.pure, eq_comm]
  | cons a rest ih =>
    rw [List.mapM_cons, List.forall₂_cons_left_iff]
    rcases ha : f a with e | b
    · simp [bind, Except.bind]
    · rcases hrest : rest.mapM f with e | bs'
      · simp [bind, Except.bind, ← ih, hrest]
      · simp [bind, Except.bind, pure, Except.pure, ← ih, hrest, eq_comm]

theorem exists_mapM_eq_ok {f : α → Except ε β} {l : List α} (h : ∀ a ∈ l, ∃ b, f a = .ok b) :
    ∃ bs, l.mapM f = .ok bs := by
  induction l with
  | nil => exact ⟨[], rfl⟩
  | cons a rest ih =>
    obtain ⟨b, hb⟩ := h a (by simp)
    obtain ⟨bs, hbs⟩ := ih fun a' ha' ↦ h a' (by simp [ha'])
    exact ⟨b :: bs, mapM_eq_ok_iff.2 (.cons hb (mapM_eq_ok_iff.1 hbs))⟩

theorem map_eq_map_of_forall₂ {γ : Type} {f : α → γ} {g : β → γ} {l : List α} {m : List β}
    (h : List.Forall₂ (fun a b ↦ f a = g b) l m) : l.map f = m.map g := by
  rw [← List.forall₂_eq_eq_eq, List.forall₂_map_left_iff, List.forall₂_map_right_iff]
  exact h

theorem exists_of_forall₂_of_mem_right {R : α → β → Prop} {l : List α} {m : List β}
    (h : List.Forall₂ R l m) {b : β} (hb : b ∈ m) : ∃ a ∈ l, R a b := by
  induction h with
  | nil => simp at hb
  | cons hR _ ih =>
    rcases List.mem_cons.1 hb with rfl | hb
    · exact ⟨_, by simp, hR⟩
    · obtain ⟨a, ha, hR⟩ := ih hb
      exact ⟨a, by simp [ha], hR⟩

/-- Going through a list: an invariant of the state, what is said of every value, and a reason
for each failure. -/
theorem Ends.mapM {f : α → ExceptT ε (StateM σ) β} {l : List α} {inv : σ → Prop}
    {rel : α → β → Prop} (hs : inv s)
    (h : ∀ a ∈ l, ∀ t, inv t → Ends (f a) t (fun b u ↦ rel a b ∧ inv u) bad) :
    Ends (l.mapM f) s (fun bs t ↦ List.Forall₂ rel l bs ∧ inv t) bad := by
  induction l generalizing s with
  | nil => simpa using hs
  | cons a rest ih =>
    rw [List.mapM_cons, ends_bind]
    refine (h a (by simp) s hs).mono ?_ fun _ _ ↦ id
    rintro b t ⟨hb, ht⟩
    rw [ends_bind]
    refine (ih ht fun a' ha' ↦ h a' (by simp [ha'])).mono ?_ fun _ _ ↦ id
    rintro bs u ⟨hbs, hu⟩
    rw [ends_pure]
    exact ⟨.cons hb hbs, hu⟩

/-- Going through a list where what is said of a value is said of a state as well: it stays true in
later states. -/
theorem Ends.mapM_later {f : α → ExceptT ε (StateM σ) β} {l : List α} (inv : σ → Prop)
    (later : σ → σ → Prop) (rel : α → β → σ → Prop) (hrefl : ∀ t, later t t)
    (htrans : ∀ t u v, later t u → later u v → later t v)
    (hrel : ∀ a b t u, rel a b t → later t u → rel a b u) (hs : inv s)
    (h : ∀ a ∈ l, ∀ t, inv t → Ends (f a) t (fun b u ↦ rel a b u ∧ inv u ∧ later t u) bad) :
    Ends (l.mapM f) s (fun bs t ↦ List.Forall₂ (fun a b ↦ rel a b t) l bs ∧ inv t ∧ later s t)
      bad := by
  induction l generalizing s with
  | nil => simpa using ⟨hs, hrefl s⟩
  | cons a rest ih =>
    rw [List.mapM_cons, ends_bind]
    refine (h a (by simp) s hs).mono ?_ fun _ _ ↦ id
    rintro b t ⟨hb, ht, hst⟩
    rw [ends_bind]
    refine (ih ht fun a' ha' ↦ h a' (by simp [ha'])).mono ?_ fun _ _ ↦ id
    rintro bs u ⟨hbs, hu, htu⟩
    rw [ends_pure]
    exact ⟨.cons (hrel a b t u hb htu) hbs, hu, htrans s t u hst htu⟩

/-- The turn of an element of a list comes in a state: those before it have been gone through. -/
inductive AtTurn (f : α → ExceptT ε (StateM σ) β) : List α → σ → α → σ → Prop
  | now {a : α} {rest : List α} {s : σ} : AtTurn f (a :: rest) s a s
  | later {a x : α} {rest : List α} {b : β} {s t u : σ} (h : (f a).run.run s = (.ok b, t))
      (hrest : AtTurn f rest t x u) : AtTurn f (a :: rest) s x u

/-- Going through a list ends well after the turns of all elements, and badly at the turn of the
first one that fails. -/
theorem Ends.mapM_turns {f : α → ExceptT ε (StateM σ) β} {l : List α} {s : σ} (inv : σ → Prop)
    (fine : α → σ → Prop) (fails : α → σ → ε → σ → Prop) (hs : inv s)
    (h : ∀ a ∈ l, ∀ t, inv t → Ends (f a) t (fun _ u ↦ inv u ∧ fine a t) (fails a t)) :
    Ends (l.mapM f) s (fun _ _ ↦ ∀ a u, AtTurn f l s a u → fine a u)
      fun e t ↦ ∃ a u, AtTurn f l s a u ∧ fails a u e t := by
  induction l generalizing s with
  | nil => exact (ends_pure _).2 nofun
  | cons a rest ih =>
    have hfirst := h a (by simp) s hs
    rw [List.mapM_cons, ends_bind]
    rcases run_ok_or_error (f a) s with ⟨b, t, hx⟩ | ⟨e, t, hx⟩
    · rw [ends_of_run_ok hx] at hfirst ⊢
      rw [ends_bind]
      apply (ih hfirst.1 fun a' ha' ↦ h a' (by simp [ha'])).mono
      · intro bs u hfine
        rw [ends_pure]
        intro x v hturn
        cases hturn with
        | now => exact hfirst.2
        | later hx' hrest =>
          rw [hx] at hx'
          cases hx'
          exact hfine x v hrest
      · rintro e u ⟨x, v, hturn, hfails⟩
        exact ⟨x, v, .later hx hturn, hfails⟩
    · rw [ends_of_run_error hx] at hfirst ⊢
      exact ⟨a, s, .now, hfirst⟩

theorem Ends.foldlM {f : β → α → ExceptT ε (StateM σ) β} {l : List α} (inv : β → σ → Prop)
    {b : β} (hs : inv b s) (h : ∀ a ∈ l, ∀ b t, inv b t → Ends (f b a) t inv bad) :
    Ends (l.foldlM f b) s inv bad := by
  induction l generalizing b s with
  | nil => simpa using hs
  | cons a rest ih =>
    rw [List.foldlM_cons, ends_bind]
    exact (h a (by simp) b s hs).mono (fun b' t hb' ↦ ih hb' fun a' ha' ↦ h a' (by simp [ha']))
      fun _ _ ↦ id

/-- A fold that gets something done for each element and does not undo it later. -/
theorem Ends.foldlM_each {f : β → α → ExceptT ε (StateM σ) β} {l : List α} (inv : β → σ → Prop)
    (done : α → β → Prop) {b : β} (hs : inv b s)
    (h : ∀ a ∈ l, ∀ b t, inv b t →
      Ends (f b a) t (fun b' u ↦ inv b' u ∧ done a b' ∧ ∀ a', done a' b → done a' b') bad) :
    Ends (l.foldlM f b) s (fun b' t ↦ inv b' t ∧ ∀ a ∈ l, done a b') bad := by
  suffices hall : ∀ past : List α, (∀ a ∈ past, done a b) →
      Ends (l.foldlM f b) s (fun b' t ↦ inv b' t ∧ ∀ a ∈ past ++ l, done a b') bad by
    simpa using hall [] (by simp)
  intro past hpast
  induction l generalizing b s past with
  | nil => simpa using ⟨hs, hpast⟩
  | cons a rest ih =>
    rw [List.foldlM_cons, ends_bind]
    refine (h a (by simp) b s hs).mono ?_ fun _ _ ↦ id
    rintro b' t ⟨hb', hdone, hkeep⟩
    have := ih hb' (fun a' ha' ↦ h a' (by simp [ha'])) (past ++ [a]) (by grind)
    rwa [List.append_assoc] at this

/-- A fold that cannot get past one of the elements does not end well. -/
theorem Ends.foldlM_stuck {f : β → α → ExceptT ε (StateM σ) β} {l : List α} (inv : β → σ → Prop)
    {b : β} {a : α} (ha : a ∈ l) (hs : inv b s)
    (h : ∀ a ∈ l, ∀ b t, inv b t → Ends (f b a) t inv bad)
    (hstuck : ∀ b t, inv b t → Ends (f b a) t (fun _ _ ↦ False) bad) :
    Ends (l.foldlM f b) s (fun _ _ ↦ False) bad := by
  induction l generalizing b s with
  | nil => simp at ha
  | cons x rest ih =>
    rw [List.foldlM_cons, ends_bind]
    rcases List.mem_cons.1 ha with rfl | ha
    · exact (hstuck b s hs).mono (fun _ _ ↦ False.elim) fun _ _ ↦ id
    · exact (h x (by simp) b s hs).mono
        (fun b' t hb' ↦ ih ha hb' fun a' ha' ↦ h a' (by simp [ha'])) fun _ _ ↦ id

end Scaffold
