import Scaffold.Proofs.Backup.Fidelity
import Scaffold.Proofs.Backup.Restoring

/-!
# Damaged manifests

The file of a manifest may hold anything. What spells no JSON object is refused, and the rollback
leaves the disk alone. An object is taken for the manifest that it spells, with defaults for what it
lacks. It stops the rollback before anything is done if its entities are no mappings of mappings;
otherwise it stops at the first entry that is of no use, when those before it are rolled back.
-/

namespace Scaffold

open Disk DiskOp

/-- It is the disk that fails. -/
def Failure.IsDisk (f : Failure) : Prop := ∃ e, f = .disk e

/-! ## Texts of values -/

theorem Binary64.decimalText_ne_empty (digits : Nat) (exponent : Int) :
    decimalText digits exponent ≠ "" := by
  have hexponent (e : Int) : exponentText e ≠ "" := by
    unfold exponentText
    split <;> simp
  unfold decimalText
  simp only
  split
  · simp [hexponent]
  · split
    · simp
    · split <;> simp

/-- A value that is not falsy has a text. -/
theorem Value.plain_ne_empty {v : Value} (h : v.isFalsy = false) : v.plain ≠ "" := by
  cases v with
  | null => cases h
  | bool b =>
    obtain rfl : b = true := by simpa [isFalsy] using h
    decide
  | int i =>
    change toString i ≠ ""
    cases i with
    | ofNat n => exact Nat.repr_ne_empty
    | negSucc n =>
      change "-" ++ Nat.repr (n + 1) ≠ ""
      simp
  | float x =>
    change x.text ≠ ""
    cases x with
    | nan => decide
    | infinite negative => cases negative <;> decide
    | finite negative m e =>
      have hm : (m == 0) = false := h
      simp [Binary64.text, hm, Binary64.decimalText_ne_empty]
  | text s => simpa [isFalsy, plain] using h
  | stamp t =>
    change t.plain ≠ ""
    cases t <;> simp [Stamp.plain, toString]
  | list items => simp [plain, literal]
  | map entries => simp [plain, literal]

/-! ## Objects as manifests -/

namespace BackupManifest

variable {entries : List (Value × Value)} {directory : String} {m : BackupManifest}

/-- A mapping of values of a kind. -/
def IsMapping (kind : Value → Prop) : Value → Prop
  | .map entries => ∀ x ∈ entries, kind x.2
  | _ => False

/-- The value can be taken for the entries of all entities: it is as good as missing, or a mapping
of mappings of mappings. -/
def Tabled (v : Value) : Prop :=
  v.isFalsy = true ∨ IsMapping (IsMapping (IsMapping fun _ ↦ True)) v

theorem exists_readMap_iff {α : Type} {read : Value → Except ManifestFault α} {kind : Value → Prop}
    (h : ∀ v, (∃ a, read v = .ok a) ↔ kind v) (v : Value) :
    (∃ entries, readMap read v = .ok entries) ↔ IsMapping kind v := by
  cases v with
  | map entries =>
    rw [readMap, IsMapping]
    constructor
    · rintro ⟨bs, hbs⟩ x hx
      obtain ⟨b, -, hb⟩ := exists_of_forall₂_of_mem_right (mapM_eq_ok_iff.1 hbs).flip hx
      obtain ⟨a, ha, -⟩ := bind_eq_ok_iff.1 hb
      exact (h x.2).1 ⟨a, ha⟩
    · intro hall
      apply exists_mapM_eq_ok
      intro x hx
      obtain ⟨a, ha⟩ := (h x.2).2 (hall x hx)
      exact ⟨(x.1, a), bind_eq_ok_iff.2 ⟨a, ha, rfl⟩⟩
  | _ => simp [readMap, IsMapping]

theorem exists_ofValue_entry_iff (v : Value) :
    (∃ e, BackupEntry.ofValue v = .ok e) ↔ IsMapping (fun _ ↦ True) v := by
  cases v <;> simp [BackupEntry.ofValue, IsMapping]

/-- How an object is read as a manifest. -/
theorem ofValue_eq_ok_iff :
    BackupManifest.ofValue (.map entries) directory = .ok m ↔
      ∃ entities, (if ((Value.lookup? entries "entities").getD .null).isFalsy then .ok []
          else readMap (readMap BackupEntry.ofValue)
            ((Value.lookup? entries "entities").getD .null)) = .ok entities ∧
        m = ⟨((Value.lookup? entries "timestamp").map Value.plain).getD "", directory, entities,
          if ((Value.lookup? entries "shared_artifact_path").getD .null).isFalsy then
            RouteFile.relativePath true
          else ((Value.lookup? entries "shared_artifact_path").getD .null).plain,
          (Value.lookup? entries "shared_artifact_backup").getD .null,
          !((Value.lookup? entries "shared_artifact_existed").getD .null).isFalsy⟩ := by
  rw [ofValue]
  split <;> simp only [bind_eq_ok_iff, pure, Except.pure, Except.ok.injEq, eq_comm (a := m)]

/-- Only the entities decide whether an object is read as a manifest. -/
theorem exists_ofValue_iff :
    (∃ m, BackupManifest.ofValue (.map entries) directory = .ok m) ↔
      Tabled ((Value.lookup? entries "entities").getD .null) := by
  have hread := exists_readMap_iff (exists_readMap_iff exists_ofValue_entry_iff)
  simp only [ofValue_eq_ok_iff, Tabled, ← hread]
  generalize (Value.lookup? entries "entities").getD .null = v
  cases hfalsy : v.isFalsy <;> simp

/-- A manifest that is read has a path of the route file. -/
theorem sharedPath_ne (h : BackupManifest.ofValue (.map entries) directory = .ok m) :
    m.sharedPath ≠ "" := by
  obtain ⟨entities, -, rfl⟩ := ofValue_eq_ok_iff.1 h
  simp only
  split
  · decide
  · next hfalsy => exact Value.plain_ne_empty (by simpa using hfalsy)

end BackupManifest

namespace BackupStore

variable {b : BackupStore} {session : Path} {s : Scene} {m : BackupManifest} {e : BackupEntry}
  {entity artifact timestamp : String} {content : ByteArray} {v : Value}

/-! ## What a file holds -/

/-- What the content spells as JSON; none if it is no text. -/
def jsonOf? (content : ByteArray) : Option (Except JsonError Value) :=
  match Text.decodeLines content with
  | .error _ => none
  | .ok text => some (Value.ofJson text)

/-- The content is JSON in which values are nested too deeply. -/
def Overdeep (content : ByteArray) : Prop :=
  ∃ e, jsonOf? content = some (.error e) ∧ e.fault = .tooDeep

/-- The content is JSON for an object. -/
def IsObject (content : ByteArray) (entries : List (Value × Value)) : Prop :=
  jsonOf? content = some (.ok (.map entries))

/-- The content is no text, no JSON, or JSON for something else than an object. -/
def Unreadable (content : ByteArray) : Prop :=
  ¬Overdeep content ∧ ∀ entries, ¬IsObject content entries

theorem IsObject.unique {entries entries' : List (Value × Value)} (h : IsObject content entries)
    (h' : IsObject content entries') : entries = entries' := by
  rw [IsObject, h] at h'
  simpa using h'

theorem IsObject.not_overdeep {entries : List (Value × Value)} (h : IsObject content entries) :
    ¬Overdeep content := by
  rintro ⟨e, he, -⟩
  rw [IsObject, he] at h
  cases h

/-- How the manifest of a session is read, whatever its file holds. -/
theorem ends_manifestIn {good : Option BackupManifest → Scene → Prop}
    {bad : Failure → Scene → Prop}
    (hcontent : s.disk.readBytes (session.child manifestName) = .ok content)
    (hunreadable : Unreadable content → ∀ line, good none { s with log := s.log ++ [line] })
    (hoverdeep : Overdeep content → bad .tooDeep s)
    (hobject : ∀ entries, IsObject content entries →
      (∀ m, BackupManifest.ofValue (.map entries) session.toString = .ok m → good (some m) s) ∧
      ∀ fault, BackupManifest.ofValue (.map entries) session.toString = .error fault →
        bad (.badManifest fault) s) :
    Ends (manifestIn session) s good bad := by
  have hnone (h : Unreadable content) (reason : LogLine) :
      Ends (do Run.say reason; return none) s good bad := by
    simp only [ends_bind, Run.ends_say, ends_pure]
    exact hunreadable h reason
  rw [manifestIn, ends_bind, Run.ends_query_of_ok (isFile_of_readBytes hcontent)]
  simp only [Bool.not_true, Bool.false_eq_true, if_false]
  rw [ends_bind, Run.ends_attempt]
  cases hdecode : Text.decodeLines content with
  | error e =>
    have hread : s.disk.readText (session.child manifestName) = .error (.notText e) := by
      simp only [Disk.readText, hcontent, hdecode]
    have hjson : jsonOf? content = none := by rw [jsonOf?, hdecode]
    rw [Run.ends_readText, hread]
    refine ⟨fun _ h ↦ (by cases h), fun _ h ↦ (by cases h), fun _ _ ↦ ⟨fun _ ↦ hnone ?_ _, fun h ↦ (by cases h)⟩⟩
    simp [Unreadable, Overdeep, IsObject, hjson]
  | ok text =>
    have hread : s.disk.readText (session.child manifestName) = .ok text := by
      simp only [Disk.readText, hcontent, hdecode]
    have hjson : jsonOf? content = some (Value.ofJson text) := by rw [jsonOf?, hdecode]
    rw [Run.ends_readText_of_ok hread]
    cases hvalue : Value.ofJson text with
    | error e =>
      rw [hvalue] at hjson
      by_cases hdeep : e.fault = .tooDeep
      · simp only [hvalue, hdeep, beq_self_eq_true, if_true, ends_throw]
        exact hoverdeep ⟨e, hjson, hdeep⟩
      · simp only [hvalue, beq_iff_eq, hdeep, if_false]
        exact hnone (by simp [Unreadable, Overdeep, IsObject, hjson, hdeep]) _
    | ok v =>
      rw [hvalue] at hjson
      simp only [hvalue]
      split
      · next heq => cases heq
      · next entries heq =>
        obtain rfl := Except.ok.inj heq
        obtain ⟨hgood, hbad⟩ := hobject entries hjson
        rw [Run.ends_lift]
        cases hm : BackupManifest.ofValue (.map entries) session.toString with
        | error fault =>
          refine ⟨fun _ h ↦ (by cases h), fun fault' hfault ↦ ?_⟩
          cases hfault
          exact hbad fault hm
        | ok m =>
          refine ⟨fun found hfound ↦ ?_, fun _ h ↦ (by cases h)⟩
          cases hfound
          exact hgood m hm
      · next hother heq =>
        obtain rfl := Except.ok.inj heq
        refine hnone ⟨by simp [Overdeep, hjson], fun entries hentries ↦ ?_⟩ _
        rw [IsObject, hjson] at hentries
        cases hentries
        exact hother entries rfl

/-! ## Entries that stop a rollback -/

/-- The value is a text. -/
def IsText (v : Value) : Prop := ∃ text, v = .text text

/-- The value is the text of a path that leads below the root of the project. -/
def Inside (b : BackupStore) (v : Value) : Prop :=
  ∃ text, v = .text text ∧ ((b.root ++ Path.ofString text).relativeTo? b.root).isSome

/-- Something is there at the path that the value is the text of. -/
def Finds (b : BackupStore) (d : Disk) (v : Value) : Prop :=
  ∃ text, v = .text text ∧ d.isThere (b.root ++ Path.ofString text) = .ok true

/-- The value is the text of a pattern. -/
def IsPattern (v : Value) : Prop := ∃ text p, v = .text text ∧ PathPattern.read text = .ok p

@[simp] theorem isText_text {text : String} : IsText (.text text) := ⟨text, rfl⟩

@[simp] theorem inside_text {text : String} :
    b.Inside (.text text) ↔ ((b.root ++ Path.ofString text).relativeTo? b.root).isSome := by
  simp [Inside]

@[simp] theorem finds_text {d : Disk} {text : String} :
    b.Finds d (.text text) ↔ d.isThere (b.root ++ Path.ofString text) = .ok true := by
  simp [Finds]

theorem Inside.isText (h : b.Inside v) : IsText v := h.imp fun _ ↦ And.left

/-- A rollback can work with the entry: what it looks at are texts, what it writes or deletes lies
below the root of the project, and the pattern can be read. -/
def Sound (b : BackupStore) (d : Disk) (e : BackupEntry) : Prop :=
  if e.backedUp && !e.copy.isFalsy && !e.original.isFalsy then IsText e.copy ∧ b.Inside e.original
  else if e.existed then True
  else if !e.original.isFalsy then IsText e.original ∧ (b.Finds d e.original → b.Inside e.original)
  else e.pattern.isFalsy = true ∨ IsPattern e.pattern

/-- What the entry says is not falsy without being of use: its copy is a text, its path is relative
and its pattern can be read. -/
structure HasRelativePath (e : BackupEntry) : Prop where
  copy : e.copy.isFalsy = true ∨ IsText e.copy
  original : e.original.isFalsy = true ∨
    ∃ text, e.original = .text text ∧ (Path.ofString text).slashes = 0
  pattern : e.pattern.isFalsy = true ∨ IsPattern e.pattern

theorem HasRelativePath.sound (h : HasRelativePath e) (d : Disk) : b.Sound d e := by
  have hinside (horiginal : e.original.isFalsy = false) : b.Inside e.original := by
    obtain ⟨text, htext, hrelative⟩ := h.original.resolve_left (by simp [horiginal])
    rw [htext, inside_text, Path.relativeTo?_append hrelative]
    rfl
  unfold Sound
  split
  · next hrestored =>
    simp only [Bool.and_eq_true, Bool.not_eq_true'] at hrestored
    exact ⟨h.copy.resolve_left (by simp [hrestored]), hinside hrestored.2⟩
  · split
    · trivial
    · split
      · next horiginal =>
        have horiginal := hinside (by simpa using horiginal)
        exact ⟨horiginal.isText, fun _ ↦ horiginal⟩
      · exact h.pattern

/-- A sound part of a rollback is stopped by the disk only, any other part is stopped by itself. What
is stopped has changed no file. -/
def StopsUnless (sound : Prop) {α : Type} (x : Run α) (s : Scene) : Prop :=
  Ends x s (fun _ t ↦ t.disk.WellFormed ∧ sound)
    fun f t ↦ (∀ l, t.disk.file? l = s.disk.file? l) ∧ (f.IsDisk ↔ sound)

theorem StopsUnless.singleton {sound : Prop} {α : Type} {x : Run α} (h : StopsUnless sound x s) :
    StopsUnless sound (do return [← x]) s := by
  rw [StopsUnless, ends_bind]
  simp only [ends_pure]
  exact h

theorem stopsUnless_step {target : Path} {op : DiskOp Unit} {done : RollbackAction}
    {success failure : String}
    (h : Ends op s.disk (fun _ d ↦ d.WellFormed) fun _ d ↦ Changes everywhere nowhere s.disk d) :
    StopsUnless ((target.relativeTo? b.root).isSome)
      (b.step target entity artifact op done success failure) s := by
  rw [StopsUnless, step, ends_bind, relative]
  cases hrelative : target.relativeTo? b.root with
  | none => simp [Failure.IsDisk]
  | some p =>
    rw [ends_pure, ends_bind, Run.ends_attempt, Run.ends_onDisk]
    apply Ends.mono h
    · intro _ d hd
      simp only [ends_bind, Run.ends_say, ends_pure]
      exact ⟨hd, rfl⟩
    · intro e d hd
      constructor
      · intro _
        simp only [ends_bind, Run.ends_say, ends_pure]
        exact ⟨hd.wellFormed, rfl⟩
      · intro _
        exact ⟨fun l ↦ hd.same l id, fun _ ↦ rfl, fun _ ↦ ⟨e, rfl⟩⟩

theorem ends_pathOf {good : Path → Scene → Prop} {bad : Failure → Scene → Prop} :
    Ends (pathOf v) s good bad ↔ (∀ text, v = .text text → good (Path.ofString text) s) ∧
      (¬IsText v → bad (.badManifest (.notPath v.typeName)) s) := by
  cases v <;> simp [pathOf, IsText]

theorem ends_glob :
    Ends (b.glob v) s (fun qs t ↦ t = s ∧ IsPattern v ∧ ∃ p, s.disk.glob b.root p = .ok qs)
      fun f t ↦ t = s ∧ (f.IsDisk ↔ IsPattern v) := by
  cases v with
  | text text =>
    rw [glob, ends_bind, Run.ends_lift]
    constructor
    · intro p hp
      have hpattern : IsPattern (.text text) := ⟨text, p, rfl, hp⟩
      rw [Run.ends_query]
      refine ⟨fun qs hqs ↦ ⟨rfl, hpattern, p, hqs⟩, fun e _ ↦ ⟨rfl, ?_⟩⟩
      simp [Failure.IsDisk, hpattern]
    · intro e he
      refine ⟨rfl, ?_⟩
      simp [Failure.IsDisk, IsPattern, he]
  | list items =>
    rw [glob]
    split <;> simp [Failure.IsDisk, IsPattern]
  | _ => simp [glob, Failure.IsDisk, IsPattern]

/-- What a pattern has found is deleted or left. -/
theorem ends_delete_match (hwf : s.disk.WellFormed) {q : Path} (hq : Extends b.root q)
    (hroot : pathFault? b.root = none) :
    Ends (b.delete entity artifact q) s (fun _ t ↦ t.disk.WellFormed) fun _ _ ↦ False := by
  obtain ⟨rest, rfl, hrest⟩ := hq
  have hclean : Clean ⟨b.root.slashes, b.root.parts ++ rest⟩ := fun part hpart ↦
    (List.mem_append.1 hpart).elim (Clean.of_pathFault? hroot part) (hrest part)
  have hremove : Ends (DiskOp.remove ⟨b.root.slashes, b.root.parts ++ rest⟩) s.disk
      (fun _ d ↦ d.WellFormed) fun e d ↦ d.WellFormed ∧ e.fault.IsPlain := by
    apply ((changes_remove hwf).and (failsPlainly_remove hclean)).mono
    · rintro _ d ⟨hd, -⟩
      exact hd.wellFormed
    · rintro e _ ⟨rfl, hplain⟩
      exact ⟨hwf, hplain⟩
  have heq := Path.append_eq (o := ⟨0, rest⟩) b.root rfl
  rw [← heq] at hremove ⊢
  rw [delete]
  apply (ends_step rfl (by decide) hremove).mono
  · rintro _ t (⟨-, ht⟩ | ⟨-, ht⟩) <;> exact ht
  · exact fun _ _ ↦ id

/-- An entry is rolled back, unless the disk or what it says stops this. -/
theorem stopsUnless_rollbackEntry (hwf : s.disk.WellFormed) (hroot : b.root.Spelled)
    (hsession : session.Spelled) :
    StopsUnless (b.Sound s.disk e) (b.rollbackEntry session entity artifact e) s := by
  have hspelled (p : Path) (hp : p.Spelled) (text : String) : (p ++ Path.ofString text).Spelled :=
    hp.append (Path.spelled_ofString text)
  have hnotPath {v : Value} {sound : Prop} (h : ¬sound) :
      (Failure.badManifest (.notPath v.typeName)).IsDisk ↔ sound := by
    simp [Failure.IsDisk, h]
  unfold rollbackEntry Sound
  split
  · rw [StopsUnless, ends_bind, ends_pathOf]
    refine ⟨fun copy hcopy ↦ ?_, fun hcopy ↦ ⟨fun _ ↦ rfl, hnotPath fun h ↦ hcopy h.1⟩⟩
    rw [ends_bind, ends_pathOf]
    refine ⟨fun original horiginal ↦ ?_,
      fun horiginal ↦ ⟨fun _ ↦ rfl, hnotPath fun h ↦ horiginal h.2.isText⟩⟩
    rw [hcopy, horiginal]
    simp only [isText_text, inside_text, true_and]
    apply (stopsUnless_step _).singleton
    apply (changes_copyFile_of_spelled hwf (hspelled _ hsession _) (hspelled _ hroot _)).mono
    · exact fun _ _ hd ↦ hd.wellFormed
    · exact fun _ _ ↦ id
  · split
    · exact (ends_pure _).2 ⟨hwf, trivial⟩
    · split
      · rw [StopsUnless, ends_bind, ends_pathOf]
        refine ⟨fun original horiginal ↦ ?_,
          fun horiginal ↦ ⟨fun _ ↦ rfl, hnotPath fun h ↦ horiginal h.1⟩⟩
        rw [horiginal, ends_bind, Run.ends_query]
        simp only [isText_text, inside_text, finds_text, true_and]
        refine ⟨fun there hthere ↦ ?_, fun e he ↦ ?_⟩
        · cases there with
          | false => simp [hthere, hwf]
          | true =>
            simp only [hthere, forall_const]
            apply (stopsUnless_step _).singleton
            apply (changes_remove hwf).mono
            · exact fun _ _ hd ↦ hd.wellFormed
            · rintro _ d rfl
              exact .refl hwf
        · simp [Failure.IsDisk, he]
      · split
        · next hfalsy => exact (ends_pure _).2 ⟨hwf, .inl hfalsy⟩
        · next hfalsy =>
          rw [StopsUnless, ends_bind]
          apply ends_glob.mono
          · rintro qs t ⟨rfl, hpattern, p, hqs⟩
            have hdeleted : Ends (qs.mapM (b.delete entity artifact)) t
                (fun steps u ↦ List.Forall₂ (fun _ _ ↦ True) qs steps ∧ u.disk.WellFormed)
                fun _ _ ↦ False := by
              apply Ends.mapM
              · exact hwf
              intro q hq u hu
              obtain ⟨hextends, hfault⟩ := hwf.extends_of_mem_glob hqs q hq
              apply (ends_delete_match hu hextends hfault).mono
              · exact fun _ _ hv ↦ ⟨trivial, hv⟩
              · exact fun _ _ ↦ id
            apply hdeleted.mono
            · exact fun _ _ h ↦ ⟨h.2, .inr hpattern⟩
            · exact fun _ _ ↦ False.elim
          · rintro f t ⟨rfl, hiff⟩
            exact ⟨fun _ ↦ rfl, hiff.trans (by simp [hfalsy])⟩

/-! ## Whole rollbacks -/

/-- The turn of an entry comes in a scene when a manifest is rolled back to a session. -/
def TurnIn (b : BackupStore) (session : Path) (m : BackupManifest) (s : Scene) (e : BackupEntry)
    (u : Scene) : Prop :=
  ∃ x, x.2.2 = e ∧ AtTurn (fun (entity, artifact, e) ↦
    b.rollbackEntry session entity.plain artifact.plain e) (turns m) s x u

theorem ends_rollbackAll (hshared : m.sharedPath ≠ "") (hwf : s.disk.WellFormed)
    (hroot : b.root.Spelled) (hsession : session.Spelled) :
    Ends (b.rollbackAll session m) s
      (fun _ _ ↦ ∀ e u, b.TurnIn session m s e u → b.Sound u.disk e)
      fun f t ↦ ∃ e u, b.TurnIn session m s e u ∧ (∀ l, t.disk.file? l = u.disk.file? l) ∧
        (f.IsDisk ↔ b.Sound u.disk e) := by
  rw [rollbackAll_eq hshared, ends_map]
  refine (Ends.mapM_turns (fun u ↦ u.disk.WellFormed) (fun x u ↦ b.Sound u.disk x.2.2)
    (fun x u f t ↦ (∀ l, t.disk.file? l = u.disk.file? l) ∧ (f.IsDisk ↔ b.Sound u.disk x.2.2))
    hwf ?_).mono ?_ ?_
  · intro x _ u hu
    exact stopsUnless_rollbackEntry hu hroot hsession
  · rintro _ _ hsound e u ⟨x, rfl, hturn⟩
    exact hsound x u hturn
  · rintro f t ⟨x, u, hturn, hstops⟩
    exact ⟨x.2.2, u, ⟨x, rfl, hturn⟩, hstops⟩

/-- The session to which a rollback goes back. -/
def Chooses (b : BackupStore) (s : Scene) (timestamp : String) (session : Path) : Prop :=
  if timestamp = "" then b.latest.run.run s = (.ok (some session), s)
  else session = b.folder ++ Path.ofString timestamp

/-- What a rollback does with the session it looks up is what it does with the chosen one. -/
theorem Chooses.ends_choice {go : Option Path → Run α} {good : α → Scene → Prop}
    {bad : Failure → Scene → Prop} (hchosen : b.Chooses s timestamp session)
    (h : Ends (go (some session)) s good bad) :
    Ends (if timestamp == "" then b.latest >>= go
      else pure (some (b.folder ++ Path.ofString timestamp)) >>= go) s good bad := by
  rw [Chooses] at hchosen
  simp only [beq_iff_eq]
  split at hchosen
  · next hempty =>
    rw [if_pos hempty, ends_bind]
    exact (ends_of_run_ok hchosen).2 h
  · next hnamed =>
    rw [if_neg hnamed, pure_bind, ← hchosen]
    exact h

/-- How a rollback to a session ends, given how its manifest is read. -/
theorem ends_rollback_of_chooses (good : RollbackResult → Disk → Prop)
    (bad : Failure → Disk → Prop) (hchosen : b.Chooses s timestamp session)
    (hcontent : s.disk.readBytes (session.child manifestName) = .ok content)
    (hunreadable : Unreadable content →
      good ⟨session.name, [], ["Invalid backup or missing manifest file."]⟩ s.disk)
    (hoverdeep : Overdeep content → bad .tooDeep s.disk)
    (hobject : ∀ entries, IsObject content entries →
      (∀ m, BackupManifest.ofValue (.map entries) session.toString = .ok m →
        Ends (b.rollbackAll session m) s (fun steps t ↦ good ⟨session.name, steps, []⟩ t.disk)
          fun f t ↦ bad f t.disk) ∧
      ∀ fault, BackupManifest.ofValue (.map entries) session.toString = .error fault →
        bad (.badManifest fault) s.disk) :
    Ends (b.rollback timestamp) s (fun r t ↦ good r t.disk) fun f t ↦ bad f t.disk := by
  have hread : Ends (b.rollbackTo timestamp) s (fun r t ↦ good r t.disk)
      fun f t ↦ bad f t.disk := by
    rw [rollbackTo]
    apply hchosen.ends_choice
    rw [ends_bind]
    apply ends_manifestIn hcontent
    · intro h line
      simp only [ends_pure]
      exact hunreadable h
    · exact hoverdeep
    · intro entries h
      obtain ⟨hgood, hbad⟩ := hobject entries h
      refine ⟨fun m hm ↦ ?_, hbad⟩
      simp only [ends_bind, ends_pure]
      exact hgood m hm
  rw [rollback, ends_bind]
  apply hread.mono _ fun _ _ ↦ id
  intro r t hr
  simp only [ends_bind, Run.ends_sayAll, Run.ends_say, ends_pure]
  exact hr

/-- A rollback to a session, whatever the file of its manifest holds. Where that is no object, nothing
happens and the result says so. An object whose entities are no mappings of mappings stops the
rollback at its start. Any other object is taken for a manifest, and the rollback is stopped at the
turn of the first entry that is not sound, or by the disk; no entry with a relative path is stopped
otherwise than by the disk. -/
theorem ends_rollback_of_content (hchosen : b.Chooses s timestamp session)
    (hwf : s.disk.WellFormed) (hroot : b.root.Spelled) (hsession : session.Spelled)
    (hcontent : s.disk.readBytes (session.child manifestName) = .ok content) :
    (Unreadable content → Ends (b.rollback timestamp) s
      (fun r t ↦ r = ⟨session.name, [], ["Invalid backup or missing manifest file."]⟩ ∧
        r.isSuccess = false ∧ t.disk = s.disk) fun _ _ ↦ False) ∧
    (Overdeep content → Ends (b.rollback timestamp) s (fun _ _ ↦ False)
      fun f t ↦ f = .tooDeep ∧ t.disk = s.disk) ∧
    ∀ entries, IsObject content entries →
      (¬BackupManifest.Tabled ((Value.lookup? entries "entities").getD .null) →
        Ends (b.rollback timestamp) s (fun _ _ ↦ False)
          fun f t ↦ (∃ fault, f = .badManifest fault) ∧ t.disk = s.disk) ∧
      (BackupManifest.Tabled ((Value.lookup? entries "entities").getD .null) →
        ∃ m, BackupManifest.ofValue (.map entries) session.toString = .ok m ∧
          Ends (b.rollback timestamp) s
            (fun r _ ↦ ∃ steps, r = ⟨session.name, steps, []⟩ ∧
              (r.isSuccess = true ↔ NoneFailed steps) ∧
              ∀ e u, b.TurnIn session m s e u → b.Sound u.disk e)
            fun f t ↦ ∃ e u, b.TurnIn session m s e u ∧
              (∀ l, t.disk.file? l = u.disk.file? l) ∧ (f.IsDisk ↔ b.Sound u.disk e) ∧
                (HasRelativePath e → f.IsDisk)) := by
  refine ⟨fun hunreadable ↦ ?_, fun hoverdeep ↦ ?_,
    fun entries hentries ↦ ⟨fun htabled ↦ ?_, fun htabled ↦ ?_⟩⟩
  · apply ends_rollback_of_chooses
      (fun r d ↦ r = ⟨session.name, [], ["Invalid backup or missing manifest file."]⟩ ∧
        r.isSuccess = false ∧ d = s.disk) (fun _ _ ↦ False) hchosen hcontent
    · exact fun _ ↦ ⟨rfl, rfl, rfl⟩
    · exact hunreadable.1
    · exact fun entries h ↦ absurd h (hunreadable.2 entries)
  · apply ends_rollback_of_chooses (fun _ _ ↦ False) (fun f d ↦ f = .tooDeep ∧ d = s.disk)
      hchosen hcontent
    · exact fun h ↦ h.1 hoverdeep
    · exact fun _ ↦ ⟨rfl, rfl⟩
    · exact fun entries h ↦ absurd hoverdeep h.not_overdeep
  · apply ends_rollback_of_chooses (fun _ _ ↦ False)
      (fun f d ↦ (∃ fault, f = .badManifest fault) ∧ d = s.disk) hchosen hcontent
    · exact fun h ↦ h.2 entries hentries
    · exact fun h ↦ absurd h hentries.not_overdeep
    · intro entries' hentries'
      obtain rfl := hentries.unique hentries'
      exact ⟨fun m hm ↦ absurd (BackupManifest.exists_ofValue_iff.1 ⟨m, hm⟩) htabled,
        fun fault _ ↦ ⟨⟨fault, rfl⟩, rfl⟩⟩
  · obtain ⟨m, hm⟩ := BackupManifest.exists_ofValue_iff.2 htabled
    refine ⟨m, hm, ?_⟩
    apply ends_rollback_of_chooses
      (fun r _ ↦ ∃ steps, r = ⟨session.name, steps, []⟩ ∧ (r.isSuccess = true ↔ NoneFailed steps) ∧
        ∀ e u, b.TurnIn session m s e u → b.Sound u.disk e)
      (fun f d ↦ ∃ e u, b.TurnIn session m s e u ∧ (∀ l, d.file? l = u.disk.file? l) ∧
        (f.IsDisk ↔ b.Sound u.disk e) ∧ (HasRelativePath e → f.IsDisk)) hchosen hcontent
    · exact fun h ↦ absurd hentries (h.2 entries)
    · exact fun h ↦ absurd h hentries.not_overdeep
    · intro entries' hentries'
      obtain rfl := hentries.unique hentries'
      refine ⟨fun m' hm' ↦ ?_, fun fault hfault ↦ ?_⟩
      · obtain rfl := Except.ok.inj (hm.symm.trans hm')
        apply (ends_rollbackAll (BackupManifest.sharedPath_ne hm) hwf hroot hsession).mono
        · exact fun steps _ hsound ↦ ⟨steps, rfl, isSuccess_iff, hsound⟩
        · rintro f t ⟨e, u, hturn, hfiles, hiff⟩
          exact ⟨e, u, hturn, hfiles, hiff, fun h ↦ hiff.2 (h.sound u.disk)⟩
      · cases hm.symm.trans hfault

/-- A project with a model, and a session whose manifest spells the value. -/
def damaged (v : Value) : Scene := ⟨⟨[(["app"], .dir), (["app", "Models"], .dir),
  (["app", "Models", "Post.php"], .file (Text.encode "<?php")), (["backups"], .dir),
  (["backups", "s"], .dir),
  (["backups", "s", "backup_manifest.json"], .file (Text.encode v.json))], []⟩, [], []⟩

/-- A manifest with one value in place of the artifacts of an entity. -/
def misshapen : Value := .ofPairs [("entities", .ofPairs [("Post", .null)])]

/-- A manifest of a model, and of a seeder with an absolute path. -/
def halfUseful : Value := .ofPairs [("entities", .ofPairs [("Post", .ofPairs
  [("model", .ofPairs [("original_path", .text "app/Models/Post.php")]),
    ("seeder", .ofPairs [("original_path", .text "/app")])])])]

theorem jsonOf?_json {n : Nat} (hv : Json.Written n v) (hn : n ≤ Json.deepest) :
    jsonOf? (Text.encode v.json) = some (.ok v) := by
  rw [jsonOf?, Json.decodeLines_json hv]
  exact congrArg some (Json.ofJson_json hv hn)

/-- Null is refused. One value of a wrong kind stops the rollback at once. -/
theorem damaged_rollback :
    (Unreadable (Text.encode Value.null.json) ∧
      Ends (modelStore.rollback "s") (damaged .null)
        (fun r t ↦ r.isSuccess = false ∧ t.disk = (damaged .null).disk) fun _ _ ↦ False) ∧
    Ends (modelStore.rollback "s") (damaged misshapen) (fun _ _ ↦ False)
      fun f t ↦ (∃ fault, f = .badManifest fault) ∧ t.disk = (damaged misshapen).disk := by
  have hnull := jsonOf?_json (v := .null) (n := 0) trivial (by decide)
  have hunreadable : Unreadable (Text.encode Value.null.json) := by
    simp [Unreadable, Overdeep, IsObject, hnull]
  have hwritten : Json.Written 2 misshapen := by
    refine ⟨[("entities", .ofPairs [("Post", .null)])], rfl, List.nodup_singleton _, ?_⟩
    intro x hx
    rw [List.mem_singleton.1 hx]
    refine ⟨[("Post", .null)], rfl, List.nodup_singleton _, ?_⟩
    intro y hy
    rw [List.mem_singleton.1 hy]
    trivial
  have hroot : modelStore.root.Spelled := by simp [Path.Spelled, modelStore, Path.here]
  have hsession : Path.Spelled ⟨0, ["backups", "s"]⟩ := by simp [Path.Spelled]
  have hchosen (v : Value) : modelStore.Chooses (damaged v) "s" ⟨0, ["backups", "s"]⟩ := rfl
  have hends (v : Value) (hwf : (damaged v).disk.WellFormed) :=
    ends_rollback_of_content (hchosen v) hwf hroot hsession rfl
  refine ⟨⟨hunreadable, ?_⟩, ?_⟩
  · exact ((hends .null (by decide)).1 hunreadable).mono (fun _ _ ↦ And.right) fun _ _ ↦ id
  · apply ((hends misshapen (by decide)).2.2 _ (jsonOf?_json hwritten (by decide))).1
    rintro (hfalsy | hmapping)
    · cases hfalsy
    · exact hmapping _ (List.mem_singleton.2 rfl)

/-- The model of the first entry is gone when the second one stops the rollback. -/
example : (BackupManifest.ofValue halfUseful "backups/s").toOption.map (fun m ↦
    match (modelStore.rollbackAll ⟨0, ["backups", "s"]⟩ m).run.run (damaged halfUseful) with
    | (.ok _, _) => false
    | (.error _, t) => t.disk.node? ["app", "Models", "Post.php"] == none) = some true := by
  decide +kernel

end BackupStore

end Scaffold
