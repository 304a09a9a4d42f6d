import Scaffold.Generation.Pipeline
import Scaffold.Proofs.Backup.Targets
import Scaffold.Proofs.Disk.Faults
import Scaffold.Proofs.Generation.Effect
import Scaffold.Proofs.Value.Json

/-!
# The routes of a run

The registration of a route changes the route file and nothing else. What the file held it still
holds, and after a registration that did not fail it holds the route. A route that is there already
changes nothing.
-/

namespace Scaffold

namespace Disk

variable {d d' : Disk} {p : Path} {text : String} {dirs files : Location → Prop}

theorem readText_eq_ok_iff_readBytes : d.readText p = .ok text ↔
    ∃ content, d.readBytes p = .ok content ∧ Text.decodeLines content = .ok text := by
  rw [readText]
  cases d.readBytes p with
  | error e => simp
  | ok content => cases hdecode : Text.decodeLines content <;> simp [hdecode]

theorem readText_eq_ok_iff :
    d.readText p = .ok text ↔ d.locate p = .ok (d.resolve p) ∧
      ∃ content, d.file? (d.resolve p) = some content ∧ Text.decodeLines content = .ok text := by
  simp only [readText_eq_ok_iff_readBytes, readBytes_eq_ok_iff, and_assoc, exists_and_left]

theorem isThere_of_readBytes {content : ByteArray} (h : d.readBytes p = .ok content) :
    d.isThere p = .ok true := by
  obtain ⟨hlocate, hfile⟩ := readBytes_eq_ok_iff.1 h
  exact isThere_eq_true_iff.2 ⟨hlocate, by rw [file?_eq_some_iff.1 hfile]; rfl⟩

theorem isThere_of_readText (h : d.readText p = .ok text) : d.isThere p = .ok true := by
  obtain ⟨content, hbytes, -⟩ := readText_eq_ok_iff_readBytes.1 h
  exact isThere_of_readBytes hbytes

theorem cr_not_mem_of_readText (h : d.readText p = .ok text) : '\r' ∉ text.toList := by
  obtain ⟨content, -, hdecode⟩ := readText_eq_ok_iff_readBytes.1 h
  exact Text.cr_not_mem_of_decodeLines hdecode

/-- A file with the bytes of a text is read as that text with unified line ends. -/
theorem readText_of_readBytes (h : d.readBytes p = .ok (Text.encode text)) :
    d.readText p = .ok (Text.unified text) :=
  readText_eq_ok_iff_readBytes.2 ⟨_, h, Text.decodeLines_encode_eq text⟩

/-- A text is read as before if its file is the same. -/
theorem Changes.readText (h : Changes dirs files d d') (hfile : ¬files (d.resolve p))
    (hread : d.readText p = .ok text) : d'.readText p = .ok text := by
  obtain ⟨content, hbytes, hdecode⟩ := readText_eq_ok_iff_readBytes.1 hread
  exact readText_eq_ok_iff_readBytes.2 ⟨content, h.readBytes hfile hbytes, hdecode⟩

end Disk

namespace RouteFile

open Disk DiskOp

variable {f : RouteFile} {s : Scene} {table controller : String}

theorem isTarget_relativePath (api : Bool) : (Path.ofString (relativePath api)).IsTarget := by
  obtain ⟨file, hfile, hcopy⟩ := copyOf_routes api
  rw [hfile]
  exact hcopy.original

/-- Where the route file lies. -/
def place (f : RouteFile) (d : Disk) : Location := d.resolve f.path

theorem cr_not_mem_joinLines {lines : List String} (h : ∀ line ∈ lines, '\r' ∉ line.toList) :
    '\r' ∉ (Text.joinLines lines).toList := by
  rw [Text.joinLines, String.toList_intercalate]
  intro hmem
  rcases Name.mem_of_mem_intercalate hmem with hmem | ⟨l, hl, hmem⟩
  · revert hmem; decide
  · obtain ⟨line, hline, rfl⟩ := List.mem_map.1 hl
    exact h line hline hmem

theorem cr_not_mem_banner {title group : String} (htitle : '\r' ∉ title.toList)
    (hgroup : '\r' ∉ group.toList) (hlower : '\r' ∉ group.toLower.toList) :
    ∀ line ∈ banner title group, '\r' ∉ line.toList := by
  have htext (s : String) : toString s = s := rfl
  simp only [banner, List.forall_mem_cons, htext, String.toList_append, List.mem_append, not_or]
  simp [htitle, hgroup, hlower]

theorem cr_not_mem_defaultContent (api : Bool) : '\r' ∉ (defaultContent api).toList := by
  refine cr_not_mem_joinLines ?_
  cases api with
  | true =>
    simp only [if_true, List.forall_mem_append]
    exact ⟨⟨by simp, cr_not_mem_banner (by decide) (by decide) (by simp [String.toLower])⟩, by simp⟩
  | false =>
    simp only [Bool.false_eq_true, if_false, List.forall_mem_append]
    exact ⟨⟨by simp, cr_not_mem_banner (by decide) (by decide) (by simp [String.toLower])⟩, by simp⟩

/-- The route file can be read, if it is there. -/
def Legible (f : RouteFile) (d : Disk) : Prop :=
  ∀ content, d.file? (f.place d) = some content → ∃ text, Text.decodeLines content = .ok text

theorem Legible.of_readText {d : Disk} {text : String} (h : d.readText f.path = .ok text) :
    f.Legible d := by
  obtain ⟨-, content, hfile, hdecode⟩ := readText_eq_ok_iff.1 h
  intro content' hcontent'
  obtain rfl := Option.some.inj (hfile.symm.trans hcontent')
  exact ⟨text, hdecode⟩

theorem Legible.of_same {d d' : Disk} (h : f.Legible d) (hplace : f.place d' = f.place d)
    (hsame : d'.file? (f.place d) = d.file? (f.place d)) : f.Legible d' := by
  intro content hcontent
  rw [hplace, hsame] at hcontent
  exact h content hcontent

/-- Where directories may come for the sake of the route file: above it, if its root is anchored. -/
def Leading (f : RouteFile) (d : Disk) (l : Location) : Prop :=
  d.Anchored f.root → Above (f.place d) l

theorem Leading.trans {d d' d'' : Disk} {files : Location → Prop}
    (h : Grows (f.Leading d) files d d') (h' : Grows (f.Leading d') files d' d'') :
    Grows (f.Leading d) files d d'' := by
  refine Grows.trans h (h'.mono (fun l hl hanchor ↦ ?_) fun _ ↦ id)
  rw [← show f.place d' = f.place d from h.resolve_eq _]
  exact hl (h.anchored hanchor)

/-- Bytes are written to the route file, or no file changes. -/
theorem ends_writeFile_bytes {d : Disk} {content : ByteArray} (hwf : d.WellFormed)
    (hroot : f.root.Spelled) :
    Ends (writeFile f.path content true) d
      (fun _ d' ↦ Grows (f.Leading d) (· = f.place d) d d' ∧
        d'.locate f.path = .ok (f.place d) ∧ d'.file? (f.place d) = some content)
      fun e d' ↦ Grows (f.Leading d) nowhere d d' ∧ (Usable f.path → e.fault.IsPlain) := by
  have hwrite : Ends (writeFile f.path content true) d
      (fun _ d' ↦ Grows (f.Leading d) (· = f.place d) d d' ∧
        d'.locate f.path = .ok (f.place d) ∧ d'.file? (f.place d) = some content)
      fun _ d' ↦ Grows (f.Leading d) nowhere d d' := by
    by_cases hanchor : d.Anchored f.root
    · exact ((isTarget_relativePath f.api).grows_writeFile_of_anchored hwf hroot hanchor).mono
        (fun _ _ ⟨hgrows, hfile⟩ ↦ ⟨hgrows.mono (fun _ hl _ ↦ hl) fun _ ↦ id, hfile⟩)
        fun _ _ hgrows ↦ hgrows.mono (fun _ hl _ ↦ hl) fun _ ↦ id
    · exact (isTarget_relativePath f.api).grows_writeFile hwf hroot fun _ _ _ h ↦ absurd h hanchor
  have hplain : Ends (writeFile f.path content true) d (fun _ _ ↦ True)
      fun e _ ↦ Usable f.path → e.fault.IsPlain :=
    (Ends.imp fun husable ↦ husable.failsPlainly_writeFile).mono (fun _ _ _ ↦ trivial) fun _ _ ↦ id
  exact (hwrite.and hplain).mono (fun _ _ h ↦ h.1) fun _ _ ↦ id

/-- A text is written to the route file, or no file changes. -/
theorem ends_writeFile {d : Disk} {text : String} (hwf : d.WellFormed) (hroot : f.root.Spelled)
    (htext : '\r' ∉ text.toList) :
    Ends (writeFile f.path (Text.encode text) true) d
      (fun _ d' ↦ Grows (f.Leading d) (· = f.place d) d d' ∧ d'.readText f.path = .ok text)
      fun e d' ↦ Grows (f.Leading d) nowhere d d' ∧ (Usable f.path → e.fault.IsPlain) := by
  refine (ends_writeFile_bytes hwf hroot).mono ?_ fun _ _ ↦ id
  rintro _ d' ⟨hgrows, hlocate, hfile⟩
  refine ⟨hgrows, readText_eq_ok_iff.2 ⟨?_, _, ?_, Text.decodeLines_encode htext⟩⟩
  · rw [hgrows.resolve_eq]
    exact hlocate
  · rw [hgrows.resolve_eq]
    exact hfile

/-- After the file was made sure of it can be asked for, and no other file has changed. -/
theorem ends_ensure (hwf : s.disk.WellFormed) (hroot : f.root.Spelled) :
    Ends f.ensure s
      (fun created t ↦ t.asked = s.asked ∧
        (created = false ∧ t = s ∧ s.disk.isThere f.path = .ok true ∨
          created = true ∧ s.disk.isThere f.path = .ok false ∧
            Grows (f.Leading s.disk) (· = f.place s.disk) s.disk t.disk ∧
              t.disk.readText f.path = .ok (defaultContent f.api)))
      fun e t ↦ t.asked = s.asked ∧ Grows (f.Leading s.disk) nowhere s.disk t.disk ∧
        s.disk.isThere f.path ≠ .ok true ∧
          ∃ fault, e = .disk fault ∧ (Usable f.path → fault.fault.IsPlain) := by
  rw [ensure, ends_bind]
  rcases hthere : s.disk.isThere f.path with e | ⟨⟩ | ⟨⟩
  · rw [Run.ends_query_of_error hthere]
    exact ⟨rfl, .refl hwf, by simp, e, rfl, fun _ ↦ isPlain_of_holds hthere⟩
  · rw [Run.ends_query_of_ok hthere]
    simp only [Bool.false_eq_true, if_false, ends_bind, Run.ends_onDisk]
    refine (ends_writeFile hwf hroot (cr_not_mem_defaultContent f.api)).mono ?_ ?_
    · rintro _ d' ⟨hgrows, hread⟩
      rw [Run.ends_say, ends_pure]
      exact ⟨rfl, .inr ⟨rfl, trivial, hgrows, hread⟩⟩
    · rintro e d' ⟨hgrows, hplain⟩
      exact ⟨trivial, hgrows, by simp, e, rfl, hplain⟩
  · rw [Run.ends_query_of_ok hthere]
    simp only [if_true, ends_pure]
    exact ⟨trivial, .inl ⟨trivial, trivial, trivial⟩⟩

/-! ## Registering -/

/-- The text of a file with a route added at its end. -/
def added (text line : String) : String := text ++ "\n" ++ line ++ "\n"

theorem contains_added (text line : String) : Text.contains (added text line) line = true := by
  rw [Text.contains_iff]
  refine ⟨text.toList ++ "\n".toList, "\n".toList, ?_⟩
  simp [added]

theorem contains_of_prefix {text text' line : String} (hpre : text.toList <+: text'.toList)
    (h : Text.contains text line = true) : Text.contains text' line = true := by
  rw [Text.contains_iff] at h ⊢
  exact h.trans hpre.isInfix

/-- A text in the route file is kept: it is still there, with more behind it at most. -/
def Keeps (f : RouteFile) (d d' : Disk) : Prop :=
  ∀ text, d.readText f.path = .ok text →
    ∃ text', d'.readText f.path = .ok text' ∧ text.toList <+: text'.toList

theorem Keeps.refl (d : Disk) : f.Keeps d d := fun text h ↦ ⟨text, h, List.prefix_refl _⟩

theorem Keeps.trans {d d' d'' : Disk} (h : f.Keeps d d') (h' : f.Keeps d' d'') : f.Keeps d d'' := by
  intro text hread
  obtain ⟨text₁, hread₁, hpre₁⟩ := h text hread
  obtain ⟨text₂, hread₂, hpre₂⟩ := h' text₁ hread₁
  exact ⟨text₂, hread₂, hpre₁.trans hpre₂⟩

/-- The route file can be read and holds the text of a route. -/
def Holds (f : RouteFile) (line : String) (d : Disk) : Prop :=
  ∃ text, d.readText f.path = .ok text ∧ Text.contains text line = true

theorem Holds.of_keeps {d d' : Disk} {line : String} (h : f.Holds line d) (hkeeps : f.Keeps d d') :
    f.Holds line d' := by
  obtain ⟨text, hread, hcontains⟩ := h
  obtain ⟨text', hread', hpre⟩ := hkeeps text hread
  exact ⟨text', hread', contains_of_prefix hpre hcontains⟩

/-- What a registration does: it changes the route file only, in which everything is kept. A
failure is plain if the file is legible and can be used. -/
theorem ends_register (hwf : s.disk.WellFormed) (hroot : f.root.Spelled)
    (hline : '\r' ∉ (routeLine table controller f.api).toList) :
    Ends (f.register table controller) s
      (fun result t ↦ t.asked = s.asked ∧ Grows (f.Leading s.disk) (· = f.place s.disk) s.disk t.disk ∧
        f.Keeps s.disk t.disk ∧ result.line = routeLine table controller f.api ∧
          f.Holds (routeLine table controller f.api) t.disk)
      fun e t ↦ t.asked = s.asked ∧ Grows (f.Leading s.disk) (· = f.place s.disk) s.disk t.disk ∧
        f.Keeps s.disk t.disk ∧
          (f.Legible s.disk → Usable f.path → e.isDiskFailure = true ∧ f.Legible t.disk) := by
  rw [register, ends_bind]
  refine (ends_ensure hwf hroot).mono ?_ ?_
  · rintro created t ⟨hasked, hensured⟩
    -- The file is read as it was, or it is new.
    have hgrows : Grows (f.Leading s.disk) (· = f.place s.disk) s.disk t.disk := by
      rcases hensured with ⟨-, rfl, -⟩ | ⟨-, -, hgrows, -⟩
      · exact .refl hwf
      · exact hgrows
    have hkeeps : f.Keeps s.disk t.disk := by
      rcases hensured with ⟨-, rfl, -⟩ | ⟨-, hthere, -⟩
      · exact .refl _
      · intro text hread
        rw [isThere_of_readText hread] at hthere
        cases hthere
    have hlegible : f.Legible s.disk → f.Legible t.disk := by
      rcases hensured with ⟨-, rfl, -⟩ | ⟨-, -, -, hread⟩
      · exact id
      · exact fun _ ↦ .of_readText hread
    have hplace : f.place t.disk = f.place s.disk := hgrows.resolve_eq _
    have hthere : t.disk.isThere f.path = .ok true := by
      rcases hensured with ⟨-, rfl, hthere⟩ | ⟨-, -, -, hread⟩
      · exact hthere
      · exact isThere_of_readText hread
    rw [ends_bind, Run.ends_readText]
    refine ⟨fun text hread ↦ ?_, fun e he ↦ ?_, fun e he ↦ ?_⟩
    · simp only
      split
      · next hcontains =>
        simp only [ends_bind, Run.ends_say, ends_pure]
        exact ⟨hasked, hgrows, hkeeps, trivial, text, hread, hcontains⟩
      · have htext : '\r' ∉ (added text (routeLine table controller f.api)).toList := by
          simp [added, cr_not_mem_of_readText hread, hline]
        rw [ends_bind, Run.ends_onDisk]
        refine (ends_writeFile hgrows.wellFormed hroot htext).mono ?_ ?_
        · rintro _ d' ⟨hgrows', hread'⟩
          rw [hplace] at hgrows'
          simp only [ends_bind, Run.ends_say, ends_pure]
          refine ⟨hasked, Leading.trans hgrows hgrows', hkeeps.trans fun text' h ↦ ?_, trivial, _,
            hread', contains_added _ _⟩
          obtain rfl := Except.ok.inj (h.symm.trans hread)
          exact ⟨_, hread', by simp [added]⟩
        · rintro e d' ⟨hgrows', hplain⟩
          refine ⟨hasked, Leading.trans hgrows (hgrows'.mono (fun _ ↦ id) fun _ ↦ False.elim),
            hkeeps.trans fun text' h ↦ ⟨text', hgrows'.readText id h, List.prefix_refl _⟩,
            fun hleg husable ↦ ⟨Failure.isDiskFailure_disk.2 (hplain husable), ?_⟩⟩
          exact (hlegible hleg).of_same (hgrows'.resolve_eq _) (hgrows'.same _ id)
    · refine ⟨hasked, hgrows, hkeeps, fun hleg husable ↦ ⟨Failure.isDiskFailure_disk.2 ?_, hlegible hleg⟩⟩
      rw [readText] at he
      rcases hbytes : t.disk.readBytes f.path with e' | content
      · rw [hbytes] at he
        obtain rfl := ReadError.disk.inj (Except.error.inj he)
        exact husable.clean.readBytes hbytes
      · rw [hbytes] at he
        simp only at he
        split at he <;> cases he
    · refine ⟨hasked, hgrows, hkeeps, fun hleg _ ↦ ?_⟩
      rw [readText] at he
      rcases hbytes : t.disk.readBytes f.path with e' | content
      · rw [hbytes] at he
        cases he
      · obtain ⟨text, htext⟩ := hlegible hleg content (readBytes_eq_ok_iff.1 hbytes).2
        rw [hbytes] at he
        simp only [htext] at he
        cases he
  · rintro _ t ⟨hasked, hgrows, -, fault, rfl, hplain⟩
    refine ⟨hasked, hgrows.mono (fun _ ↦ id) fun _ ↦ False.elim,
      fun text h ↦ ⟨text, hgrows.readText id h, List.prefix_refl _⟩,
      fun hleg husable ↦ ⟨Failure.isDiskFailure_disk.2 (hplain husable), ?_⟩⟩
    exact hleg.of_same (hgrows.resolve_eq _) (hgrows.same _ id)

/-- A route that is there is not added, and nothing changes. -/
theorem ends_register_of_holds (h : f.Holds (routeLine table controller f.api) s.disk) :
    Ends (f.register table controller) s
      (fun result t ↦ t.asked = s.asked ∧ t.disk = s.disk ∧
        result = ⟨routeLine table controller f.api, relativePath f.api, false, false⟩)
      fun _ _ ↦ False := by
  obtain ⟨text, hread, hcontains⟩ := h
  rw [register, ends_bind, ensure, ends_bind, Run.ends_query_of_ok (isThere_of_readText hread)]
  simp only [if_true, ends_pure, ends_bind, Run.ends_readText_of_ok hread, hcontains, Run.ends_say]
  exact ⟨trivial, trivial, trivial⟩

end RouteFile

/-! ## The routes of all entities -/

/-- The route of an entity. -/
def Configuration.route (c : Configuration) (api : Bool) : String :=
  routeLine c.table (c.className "Controller") api

theorem Configuration.cr_not_mem_route {c : Configuration}
    (hword : c.studly = "" ∨ IsWord c.studly) (api : Bool) : '\r' ∉ (c.route api).toList := by
  have htext (s : String) : toString s = s := rfl
  have hstudly : '\r' ∉ c.studly.toList := by
    rcases hword with h | h
    · simp [h]
    · exact h.not_mem (by decide)
  have htable : '\r' ∉ c.table.toList := fun hmem ↦ by
    rcases Migration.isTable_table c.studly _ hmem with h | h <;> revert h <;> decide
  cases api <;> simp [Configuration.route, routeLine, className, htext, hstudly, htable]

/-- The entities whose routes are registered. -/
def routed (cs : List Configuration) : List Configuration :=
  cs.filter fun c ↦ c.toggles.isOn .controller

/-- A report has grown by what the registrations came to, errors among them. -/
structure Report.AddsRoutes (results : List (Option RouteResult)) (r r' : Report) : Prop where
  routes : r'.routes = r.routes ++ results.reduceOption
  generationErrors : r'.generationErrors = [] ↔ r.generationErrors = [] ∧ none ∉ results
  outcomes : r'.outcomes = r.outcomes
  validationErrors : r'.validationErrors = r.validationErrors
  backupErrors : r'.backupErrors = r.backupErrors
  backup : r'.backup = r.backup

theorem Report.AddsRoutes.refl (r : Report) : AddsRoutes [] r r :=
  ⟨by simp, by simp, rfl, rfl, rfl, rfl⟩

theorem Report.AddsRoutes.trans {results results' : List (Option RouteResult)} {r r' r'' : Report}
    (h : AddsRoutes results r r') (h' : AddsRoutes results' r' r'') :
    AddsRoutes (results ++ results') r r'' where
  routes := by rw [h'.routes, h.routes, List.reduceOption_append, List.append_assoc]
  generationErrors := by
    rw [h'.generationErrors, h.generationErrors, List.mem_append, not_or, and_assoc]
  outcomes := h'.outcomes.trans h.outcomes
  validationErrors := h'.validationErrors.trans h.validationErrors
  backupErrors := h'.backupErrors.trans h.backupErrors
  backup := h'.backup.trans h.backup

namespace Generator

open Disk DiskOp

variable {g : Generator} {c : Configuration} {cs : List Configuration} {r : Report} {s : Scene}

theorem ends_registerRoute (hwf : s.disk.WellFormed) (hroot : g.routes.root.Spelled)
    (hword : c.studly = "" ∨ IsWord c.studly) :
    Ends (g.registerRoute c r) s
      (fun r' t ↦ t.asked = s.asked ∧
        Grows (g.routes.Leading s.disk) (· = g.routes.place s.disk) s.disk t.disk ∧
          g.routes.Keeps s.disk t.disk ∧ (g.routes.Legible s.disk → Usable g.routes.path →
            g.routes.Legible t.disk) ∧ ∃ result, r.AddsRoutes [result] r' ∧
              ∀ x ∈ result, x.line = c.route g.routes.api ∧
                g.routes.Holds (c.route g.routes.api) t.disk)
      fun _ t ↦ t.asked = s.asked ∧
        Grows (g.routes.Leading s.disk) (· = g.routes.place s.disk) s.disk t.disk ∧
          (g.routes.Legible s.disk → ¬Usable g.routes.path) := by
  rw [registerRoute, ends_bind, Run.ends_attempt]
  refine (RouteFile.ends_register hwf hroot (c.cr_not_mem_route hword _)).mono ?_ ?_
  · rintro result t ⟨hasked, hgrows, hkeeps, hline, hholds⟩
    refine (ends_pure _).2 ⟨hasked, hgrows, hkeeps, fun _ _ ↦ ?_, some result, ?_, ?_⟩
    · obtain ⟨text, hread, -⟩ := hholds
      exact .of_readText hread
    · cases result.added <;> exact ⟨rfl, by simp [Report.addWarnings], rfl, rfl, rfl, rfl⟩
    · intro x hx
      obtain rfl := Option.some.inj hx
      exact ⟨hline, hholds⟩
  · rintro e t ⟨hasked, hgrows, hkeeps, hfails⟩
    refine ⟨fun _ ↦ ?_, fun hfatal ↦ ⟨hasked, hgrows, fun hlegible husable ↦ ?_⟩⟩
    · refine (ends_pure _).2 ⟨hasked, hgrows, hkeeps, fun hlegible husable ↦
        (hfails hlegible husable).2, none, ?_, by simp⟩
      exact ⟨by simp [Report.addError], by simp [Report.addError], rfl, rfl, rfl, rfl⟩
    · rw [(hfails hlegible husable).1] at hfatal
      cases hfatal

/-- The route of every entity with a controller is registered or counts as an error, and no file but
the route file changes. If that file is legible and can be used, the run gets through. -/
theorem ends_registerRoutes_of_wellFormed (hwf : s.disk.WellFormed) (hroot : g.routes.root.Spelled)
    (hwords : ∀ c ∈ cs, c.studly = "" ∨ IsWord c.studly) :
    Ends (g.registerRoutes cs r) s
      (fun r' t ↦ t.asked = s.asked ∧
        Grows (g.routes.Leading s.disk) (· = g.routes.place s.disk) s.disk t.disk ∧
          ∃ results, r.AddsRoutes results r' ∧
            List.Forall₂ (fun c result ↦ ∀ x ∈ result, x.line = c.route g.routes.api ∧
              g.routes.Holds (c.route g.routes.api) t.disk) (routed cs) results)
      fun _ t ↦ t.asked = s.asked ∧
        Grows (g.routes.Leading s.disk) (· = g.routes.place s.disk) s.disk t.disk ∧
          (g.routes.Legible s.disk → ¬Usable g.routes.path) := by
  have hfold (l : List Configuration) (hl : ∀ c ∈ l, c.studly = "" ∨ IsWord c.studly) :
      ∀ (r : Report) (s : Scene), s.disk.WellFormed →
        Ends (l.foldlM (fun r c ↦ g.registerRoute c r) r) s
          (fun r' t ↦ t.asked = s.asked ∧
            Grows (g.routes.Leading s.disk) (· = g.routes.place s.disk) s.disk t.disk ∧
              g.routes.Keeps s.disk t.disk ∧ ∃ results, r.AddsRoutes results r' ∧
                List.Forall₂ (fun c result ↦ ∀ x ∈ result, x.line = c.route g.routes.api ∧
                  g.routes.Holds (c.route g.routes.api) t.disk) l results)
          fun _ t ↦ t.asked = s.asked ∧
            Grows (g.routes.Leading s.disk) (· = g.routes.place s.disk) s.disk t.disk ∧
              (g.routes.Legible s.disk → ¬Usable g.routes.path) := by
    induction l with
    | nil => exact fun r s hwf ↦ (ends_pure _).2 ⟨rfl, .refl hwf, .refl _, [], .refl r, .nil⟩
    | cons c rest ih =>
      intro r s hwf
      rw [List.foldlM_cons, ends_bind]
      refine (ends_registerRoute hwf hroot (hl c (by simp))).mono ?_ ?_
      · rintro r₁ t ⟨hasked, hgrows, hkeeps, hlegible, result, hadds, hresult⟩
        have hplace : g.routes.place t.disk = g.routes.place s.disk := hgrows.resolve_eq _
        refine (ih (fun c hc ↦ hl c (by simp [hc])) r₁ t hgrows.wellFormed).mono ?_ ?_
        · rintro r₂ u ⟨hasked', hgrows', hkeeps', results, hadds', hresults⟩
          rw [hplace] at hgrows'
          exact ⟨hasked'.trans hasked, RouteFile.Leading.trans hgrows hgrows', hkeeps.trans hkeeps',
            result :: results, hadds.trans hadds',
            .cons (fun x hx ↦ ⟨(hresult x hx).1, (hresult x hx).2.of_keeps hkeeps'⟩) hresults⟩
        · rintro e u ⟨hasked', hgrows', hfails⟩
          rw [hplace] at hgrows'
          exact ⟨hasked'.trans hasked, RouteFile.Leading.trans hgrows hgrows',
            fun hleg husable ↦ hfails (hlegible hleg husable) husable⟩
      · rintro e t ⟨hasked, hgrows, hfails⟩
        exact ⟨hasked, hgrows, hfails⟩
  rw [registerRoutes, ends_bind]
  refine (hfold _ (fun c hc ↦ hwords c (List.mem_filter.1 hc).1) r s hwf).mono ?_ fun _ _ ↦ id
  rintro r₁ t ⟨hasked, hgrows, -, results, hadds, hresults⟩
  exact (ends_pure _).2 ⟨hasked, hgrows, results, ⟨hadds.routes, hadds.generationErrors,
    hadds.outcomes, hadds.validationErrors, hadds.backupErrors, hadds.backup⟩, hresults⟩

/-- If the route file holds all routes nothing changes, and no route is added. -/
theorem ends_registerRoutes_of_holds
    (h : ∀ c ∈ routed cs, g.routes.Holds (c.route g.routes.api) s.disk) :
    Ends (g.registerRoutes cs r) s
      (fun r' t ↦ t.asked = s.asked ∧ t.disk = s.disk ∧ r.AddsRoutes ((routed cs).map fun c ↦
        some ⟨c.route g.routes.api, RouteFile.relativePath g.routes.api, false, false⟩) r')
      fun _ _ ↦ False := by
  have hfold (l : List Configuration) : ∀ (r : Report) (s : Scene),
      (∀ c ∈ l, g.routes.Holds (c.route g.routes.api) s.disk) →
      Ends (l.foldlM (fun r c ↦ g.registerRoute c r) r) s
        (fun r' t ↦ t.asked = s.asked ∧ t.disk = s.disk ∧ r.AddsRoutes (l.map fun c ↦
          some ⟨c.route g.routes.api, RouteFile.relativePath g.routes.api, false, false⟩) r')
        fun _ _ ↦ False := by
    induction l with
    | nil => exact fun r s _ ↦ (ends_pure _).2 ⟨rfl, rfl, .refl r⟩
    | cons c rest ih =>
      intro r s hl
      rw [List.foldlM_cons, ends_bind, registerRoute, ends_bind, Run.ends_attempt]
      refine (RouteFile.ends_register_of_holds (hl c (by simp))).mono ?_ fun _ _ ↦ False.elim
      rintro _ t ⟨hasked, hdisk, rfl⟩
      refine (ends_pure _).2 ((ih _ t fun c hc ↦ ?_).mono ?_ fun _ _ ↦ id)
      · rw [hdisk]
        exact hl c (by simp [hc])
      · rintro r' u ⟨hasked', hdisk', hadds⟩
        refine ⟨hasked'.trans hasked, hdisk'.trans hdisk, ?_⟩
        rw [List.map_cons, ← List.singleton_append]
        refine Report.AddsRoutes.trans ?_ hadds
        exact ⟨rfl, by simp [Report.addWarnings], rfl, rfl, rfl, rfl⟩
  rw [registerRoutes, ends_bind]
  refine (hfold _ r s h).mono ?_ fun _ _ ↦ id
  rintro r₁ t ⟨hasked, hdisk, hadds⟩
  exact (ends_pure _).2 ⟨hasked, hdisk, hadds.routes, hadds.generationErrors, hadds.outcomes,
    hadds.validationErrors, hadds.backupErrors, hadds.backup⟩

/-- What the registrations come to, whether or not the route file holds all routes already. -/
theorem ends_registerRoutes (hwf : s.disk.WellFormed) (hroot : g.routes.root.Spelled)
    (hwords : ∀ c ∈ cs, c.studly = "" ∨ IsWord c.studly) :
    Ends (g.registerRoutes cs r) s
      (fun r' t ↦ t.asked = s.asked ∧
        Grows (g.routes.Leading s.disk) (· = g.routes.place s.disk) s.disk t.disk ∧
          ∃ results, r.AddsRoutes results r' ∧
            List.Forall₂ (fun c result ↦ ∀ x ∈ result, x.line = c.route g.routes.api ∧
              g.routes.Holds (c.route g.routes.api) t.disk) (routed cs) results ∧
            ((∀ c ∈ routed cs, g.routes.Holds (c.route g.routes.api) s.disk) →
              t.disk = s.disk ∧ results = (routed cs).map fun c ↦
                some ⟨c.route g.routes.api, RouteFile.relativePath g.routes.api, false, false⟩))
      fun _ t ↦ t.asked = s.asked ∧
        Grows (g.routes.Leading s.disk) (· = g.routes.place s.disk) s.disk t.disk ∧
          (¬∀ c ∈ routed cs, g.routes.Holds (c.route g.routes.api) s.disk) ∧
            (g.routes.Legible s.disk → ¬Usable g.routes.path) := by
  by_cases hall : ∀ c ∈ routed cs, g.routes.Holds (c.route g.routes.api) s.disk
  · refine (ends_registerRoutes_of_holds hall).mono ?_ fun _ _ ↦ False.elim
    rintro r' t ⟨hasked, hdisk, hadds⟩
    rw [hdisk]
    refine ⟨hasked, .refl hwf, _, hadds, ?_, fun _ ↦ ⟨rfl, rfl⟩⟩
    rw [List.forall₂_map_right_iff, List.forall₂_same]
    rintro c hc x hx
    obtain rfl := Option.some.inj hx
    exact ⟨rfl, hall c hc⟩
  · refine (ends_registerRoutes_of_wellFormed hwf hroot hwords).mono ?_ ?_
    · rintro r' t ⟨hasked, hgrows, results, hadds, hresults⟩
      exact ⟨hasked, hgrows, results, hadds, hresults, fun h ↦ absurd h hall⟩
    · rintro e t ⟨hasked, hgrows, hfile⟩
      exact ⟨hasked, hgrows, hall, hfile⟩

end Generator

end Scaffold
