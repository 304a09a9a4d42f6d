import Scaffold.Proofs.Disk.Rewriting
import Scaffold.Proofs.Generation.Routes
import Scaffold.Proofs.Text.Pieces

/-!
# What a registration leaves in the route file

The file is read as a text, and is written as a whole if the text does not hold the route. So what
is in the file stays as it is exactly if its lines end in line feeds only, or nothing is written;
otherwise the carriage returns are lost (`ends_register_readBytes`). The text is searched, not its
lines: a route that occurs inside other text counts as one that is there, and then no line with the
route comes into the file (`ends_register_hasLine`).
-/

namespace Scaffold

open Disk DiskOp

namespace RouteFile

variable {f : RouteFile} {s : Scene} {d d' d'' : Disk} {table controller line text : String}

/-! ## The line of a route -/

/-- How every line of a route begins. -/
def opening (api : Bool) : String := if api then "Route::apiResource(" else "Route::resource("

theorem routeLine_eq (table controller : String) (api : Bool) :
    (routeLine table controller api).toList = (opening api).toList ++
      ("'" ++ table ++ "', \\App\\Http\\Controllers\\" ++ controller ++ "::class)").toList ++
        [';'] := by
  have htext (s : String) : toString s = s := rfl
  cases api <;> simp [routeLine, opening, htext]

theorem strip_routeLine (table controller : String) (api : Bool) :
    Text.strip (routeLine table controller api) = routeLine table controller api := by
  rw [Text.strip_eq_self_iff, Text.trim_eq_self_iff, routeLine_eq]
  constructor
  · cases api <;> simp [opening] <;> decide
  · rw [List.getLast?_concat]
    simp only [Option.mem_some_iff, forall_eq']
    decide

theorem contains_opening {api : Bool}
    (h : Text.contains text (routeLine table controller api) = true) :
    Text.contains text (opening api) = true := by
  rw [Text.contains_iff] at h ⊢
  rw [routeLine_eq, List.append_assoc] at h
  exact (List.prefix_append _ _).isInfix.trans h

theorem contains_defaultContent_opening (api : Bool) :
    Text.contains (defaultContent api) (opening api) = false := by
  have htext (s : String) : toString s = s := rfl
  rw [Text.contains, defaultContent, Text.joinLines, String.toList_intercalate]
  -- Lists of characters are searched much faster than texts.
  cases api <;>
    simp only [opening, if_true, Bool.false_eq_true, if_false, banner, htext, List.cons_append,
      List.nil_append, List.map_cons, List.map_nil, String.toList_append, String.toList_map,
      String.toLower, String.reduceToList] <;>
    decide +kernel

/-- A new file holds no routes of resources. -/
theorem contains_defaultContent (table controller : String) (api : Bool) :
    Text.contains (defaultContent api) (routeLine table controller api) = false := by
  have hopening := contains_defaultContent_opening api
  generalize defaultContent api = content at hopening ⊢
  cases hcontains : Text.contains content (routeLine table controller api) with
  | false => rfl
  | true =>
    rw [contains_opening hcontains] at hopening
    cases hopening

/-! ## What a registration does to the file -/

/-- The bytes of the route file are kept. -/
def KeepsBytes (f : RouteFile) (d d' : Disk) : Prop :=
  ∀ content, d.readBytes f.path = .ok content → d'.readBytes f.path = .ok content

theorem KeepsBytes.trans (h : f.KeepsBytes d d') (h' : f.KeepsBytes d' d'') :
    f.KeepsBytes d d'' :=
  fun content hread ↦ h' content (h content hread)

theorem KeepsBytes.of_grows {dirs : Location → Prop} (h : Grows dirs nowhere d d') :
    f.KeepsBytes d d' :=
  fun _ hread ↦ h.readBytes id hread

/-- The text that a registration finds: that of the file, or of a new file if there is none. -/
inductive Finds (f : RouteFile) (d : Disk) : String → Prop
  | there {text : String} (hread : d.readText f.path = .ok text) : Finds f d text
  | new (hthere : d.isThere f.path = .ok false) : Finds f d (defaultContent f.api)

/-- What is in the file is what a registration finds. -/
theorem Finds.eq_of_readText {found : String} (h : f.Finds d found)
    (hread : d.readText f.path = .ok text) : found = text := by
  cases h with
  | there hread' => exact Except.ok.inj (hread'.symm.trans hread)
  | new hthere =>
    rw [isThere_of_readText hread] at hthere
    cases hthere

theorem Finds.cr_not_mem (h : f.Finds d text) : '\r' ∉ text.toList := by
  cases h with
  | there hread => exact cr_not_mem_of_readText hread
  | new => exact cr_not_mem_defaultContent f.api

/-- A route that is found is in the file. -/
theorem Finds.readText_of_contains (h : f.Finds d text)
    (hcontains : Text.contains text (routeLine table controller f.api) = true) :
    d.readText f.path = .ok text := by
  cases h with
  | there hread => exact hread
  | new =>
    rw [contains_defaultContent] at hcontains
    cases hcontains

theorem Finds.contains_iff (h : f.Finds d text) :
    Text.contains text (routeLine table controller f.api) = true ↔
      f.Holds (routeLine table controller f.api) d := by
  constructor
  · intro hcontains
    exact ⟨text, h.readText_of_contains hcontains, hcontains⟩
  · intro ⟨text', hread, hcontains⟩
    obtain rfl := h.eq_of_readText hread
    exact hcontains

/-- The two ways in which a registration ends well, by whether the line is added. -/
inductive Registers (f : RouteFile) (line text : String) (d d' : Disk) : Bool → Prop
  | held (hcontains : Text.contains text line = true) (hread : d'.readText f.path = .ok text)
      (hkeeps : f.KeepsBytes d d') : Registers f line text d d' false
  | added (hcontains : Text.contains text line = false)
      (hbytes : d'.readBytes f.path = .ok (Text.encode (added text line))) :
      Registers f line text d d' true

/-- What it takes for a registration to fail: if the file can be read, it does not hold the line, and
the path of the temporary file beside it is too long. -/
def Hindered (f : RouteFile) (line : String) (d : Disk) : Prop :=
  ∀ text, d.readText f.path = .ok text →
    Text.contains text line = false ∧ d.Refuses (freshBeside d f.path)

theorem exists_path_eq (hroot : f.root.Spelled) :
    ∃ parts name, f.path = ⟨f.root.slashes, parts ++ [name]⟩ ∧
      Path.Spelled ⟨f.root.slashes, parts ++ [name]⟩ ∧ name ≠ ".." := by
  have htarget := isTarget_relativePath f.api
  obtain ⟨names, name, hpath, -⟩ := id htarget
  have hspelled := htarget.spelled_append hroot
  have hparts : f.path = ⟨f.root.slashes, (f.root.parts ++ names) ++ [name]⟩ := by
    rw [path, htarget.append_eq, hpath, List.append_assoc]
  rw [← path, hparts] at hspelled
  exact ⟨_, name, hparts, hspelled, (htarget.ne_of_mem (by simp [hpath])).2.2⟩

theorem ends_writeFile_over {content : ByteArray} (hwf : d.WellFormed) (hroot : f.root.Spelled) :
    Ends (writeFile f.path content true) d (fun _ _ ↦ True) fun _ _ ↦
      d.isFile f.path = .ok true → d.Refuses (freshBeside d f.path) := by
  obtain ⟨parts, name, hparts, hspelled, -⟩ := exists_path_eq hroot
  rw [hparts]
  refine (Ends.imp fun hfile ↦ ends_writeFile_of_isFile hwf hspelled hfile).mono ?_ fun _ _ ↦ id
  exact fun _ _ _ ↦ trivial

/-- A registration finds a text and adds the line to it, unless the text holds it already. -/
theorem ends_register_registers (hwf : s.disk.WellFormed) (hroot : f.root.Spelled) :
    Ends (f.register table controller) s
      (fun result t ↦ ∃ text, f.Finds s.disk text ∧
        f.Registers (routeLine table controller f.api) text s.disk t.disk result.added)
      fun _ t ↦ f.KeepsBytes s.disk t.disk ∧
        f.Hindered (routeLine table controller f.api) s.disk := by
  rw [register, ends_bind]
  refine (ends_ensure hwf hroot).mono ?_ ?_
  · rintro created t ⟨-, hensured⟩
    -- Either nothing has happened yet, or the file is new.
    have hwf' : t.disk.WellFormed := by
      rcases hensured with ⟨-, rfl, -⟩ | ⟨-, -, hgrows, -⟩
      · exact hwf
      · exact hgrows.wellFormed
    have hsame {content : ByteArray} (hread : s.disk.readBytes f.path = .ok content) : t = s := by
      rcases hensured with ⟨-, h, -⟩ | ⟨-, hthere, -⟩
      · exact h
      · rw [isThere_of_readBytes hread] at hthere
        cases hthere
    have hkeeps : f.KeepsBytes s.disk t.disk := by
      intro content hread
      rw [hsame hread]
      exact hread
    have hfinds (text : String) (hread : t.disk.readText f.path = .ok text) :
        f.Finds s.disk text := by
      rcases hensured with ⟨-, rfl, -⟩ | ⟨-, hthere, -, hdefault⟩
      · exact .there hread
      · obtain rfl := Except.ok.inj (hdefault.symm.trans hread)
        exact .new hthere
    have hread_of {text : String} (hread : s.disk.readText f.path = .ok text) :
        t.disk.readText f.path = .ok text := by
      obtain ⟨content, hbytes, -⟩ := readText_eq_ok_iff_readBytes.1 hread
      rw [hsame hbytes]
      exact hread
    rw [ends_bind, Run.ends_readText]
    refine ⟨fun text hread ↦ ?_, fun e he ↦ ⟨hkeeps, fun text hread ↦ ?_⟩,
      fun e he ↦ ⟨hkeeps, fun text hread ↦ ?_⟩⟩
    · cases hcontains : Text.contains text (routeLine table controller f.api) with
      | true =>
        simp only [if_true, ends_bind, Run.ends_say, ends_pure]
        exact ⟨text, hfinds text hread, .held hcontains hread hkeeps⟩
      | false =>
        simp only [Bool.false_eq_true, if_false, ends_bind, Run.ends_onDisk]
        refine ((ends_writeFile_bytes hwf' hroot).and (ends_writeFile_over hwf' hroot)).mono ?_ ?_
        · rintro _ d' ⟨⟨hgrows, hlocate, hfile⟩, -⟩
          simp only [Run.ends_say, ends_pure]
          refine ⟨text, hfinds text hread, .added hcontains (readBytes_eq_ok_iff.2 ?_)⟩
          rw [hgrows.resolve_eq]
          exact ⟨hlocate, hfile⟩
        · rintro e d' ⟨⟨hgrows, -⟩, hover⟩
          refine ⟨hkeeps.trans (.of_grows hgrows), fun text' hread' ↦ ?_⟩
          obtain rfl := Except.ok.inj (hread.symm.trans (hread_of hread'))
          obtain ⟨content, hbytes, -⟩ := readText_eq_ok_iff_readBytes.1 hread'
          obtain rfl := hsame hbytes
          exact ⟨hcontains, hover (isFile_of_readBytes hbytes)⟩
    · rw [hread_of hread] at he
      cases he
    · rw [hread_of hread] at he
      cases he
  · rintro e t ⟨-, hgrows, hthere, -⟩
    exact ⟨.of_grows hgrows, fun text hread ↦ absurd (isThere_of_readText hread) hthere⟩

/-! ## A project with a route file -/

/-- The route file for programs of the project in the working directory. -/
def programs : RouteFile := ⟨.here, true⟩

/-- A project with nothing but a route file that holds a text. -/
def lone (text : String) : Scene :=
  ⟨⟨[(["routes"], .dir), (["routes", "api.php"], .file (Text.encode text))], []⟩, [], []⟩

theorem wellFormed_lone (text : String) : (lone text).disk.WellFormed := by
  rw [wellFormed_iff]
  simp only [lone, List.forall_mem_cons]
  exact ⟨⟨by simp; decide, by simp; exact ⟨rfl, by decide⟩, by simp⟩, rfl⟩

theorem readBytes_lone (text : String) :
    (lone text).disk.readBytes programs.path = .ok (Text.encode text) := by
  rw [show programs.path = ⟨0, ["routes", "api.php"]⟩ by decide]
  rfl

/-! ## The bytes of the file -/

theorem added_eq (text line : String) : added text line = text ++ ("\n" ++ line ++ "\n") := by
  rw [added, String.append_assoc, String.append_assoc, String.append_assoc]

theorem added_left_inj {text' : String} : added text line = added text' line ↔ text = text' := by
  rw [added_eq, added_eq, String.append_left_inj]

/-- A text with unified line ends and a line behind it is not the text itself: only the line could
have its carriage returns, but what is added is longer than the number of them. -/
theorem added_unified_ne (text line : String) : added (Text.unified text) line ≠ text := by
  intro h
  have hlist : text.toList =
      Text.unifyFeeds text.toList ++ '\n' :: (line.toList ++ ['\n']) := by
    conv_lhs => rw [← h]
    simp [added, Text.unified]
  have hcount : text.toList.count '\r' = line.toList.count '\r' := by
    conv_lhs => rw [hlist]
    simp [List.count_eq_zero.2 (Text.cr_not_mem_unifyFeeds _)]
  have hlength : text.toList.length =
      (Text.unifyFeeds text.toList).length + line.toList.length + 2 := by
    conv_lhs => rw [hlist]
    simp only [List.length_append, List.length_cons, List.length_nil]
    omega
  apply lt_irrefl text.toList.length
  calc text.toList.length
      ≤ (Text.unifyFeeds text.toList).length + text.toList.count '\r' :=
        Text.length_le_length_unifyFeeds _
    _ = (Text.unifyFeeds text.toList).length + line.toList.count '\r' := by rw [hcount]
    _ ≤ (Text.unifyFeeds text.toList).length + line.toList.length :=
        Nat.add_le_add_left List.count_le_length _
    _ < text.toList.length := by omega

/-- The bytes of the route file are as they were, or with the line behind them. -/
def Appends (f : RouteFile) (line : String) (d d' : Disk) : Prop :=
  ∀ content, d.readBytes f.path = .ok content → d'.readBytes f.path = .ok content ∨
    d'.readBytes f.path = .ok (content ++ Text.encode ("\n" ++ line ++ "\n"))

theorem appends_iff {text' : String} (hread : d.readBytes f.path = .ok (Text.encode text))
    (hread' : d'.readBytes f.path = .ok (Text.encode text')) :
    f.Appends line d d' ↔ text' = text ∨ text' = text ++ ("\n" ++ line ++ "\n") := by
  rw [Appends, hread, hread']
  simp only [Except.ok.injEq, forall_eq', ← Text.encode_append, Text.encode_inj]

/-- The route file holds the bytes it held, or its text with unified line ends and the line of the
route. So a registration only appends exactly if nothing is added or the text had no carriage
returns. It fails only if the path of the temporary file is too long, and then nothing has changed. -/
theorem ends_register_readBytes (hwf : s.disk.WellFormed) (hroot : f.root.Spelled)
    (hread : s.disk.readBytes f.path = .ok (Text.encode text)) :
    Ends (f.register table controller) s
      (fun result t ↦
        (result.added = false ↔
          Text.contains (Text.unified text) (routeLine table controller f.api) = true) ∧
        t.disk.readBytes f.path = .ok (Text.encode (if result.added then
          added (Text.unified text) (routeLine table controller f.api) else text)) ∧
        (f.Appends (routeLine table controller f.api) s.disk t.disk ↔
          result.added = false ∨ '\r' ∉ text.toList))
      fun _ t ↦ t.disk.readBytes f.path = .ok (Text.encode text) ∧
        Text.contains (Text.unified text) (routeLine table controller f.api) = false ∧
          s.disk.Refuses (freshBeside s.disk f.path) := by
  have htext := readText_of_readBytes hread
  refine (ends_register_registers hwf hroot).mono ?_ fun _ _ h ↦ ⟨h.1 _ hread, h.2 _ htext⟩
  intro result t ⟨found, hfinds, hregisters⟩
  obtain rfl := hfinds.eq_of_readText htext
  generalize result.added = isAdded at hregisters ⊢
  cases hregisters with
  | held hcontains _ hkeeps =>
    have hread' := hkeeps _ hread
    simp [hcontains, hread', appends_iff hread hread']
  | added hcontains hbytes =>
    refine ⟨by simp [hcontains], hbytes, ?_⟩
    rw [appends_iff hread hbytes, ← Text.unified_eq_self_iff, ← added_eq, added_left_inj]
    simp [added_unified_ne]

/-- The line end of the first line is lost when a route is added. -/
theorem lone_register_readBytes :
    Ends (programs.register "posts" "PostController") (lone "<?php\r\n")
      (fun result t ↦ result.added = true ∧
        ¬programs.Appends (routeLine "posts" "PostController" true) (lone "<?php\r\n").disk t.disk)
      fun _ _ ↦ False := by
  have hshort : ¬(lone "<?php\r\n").disk.Refuses
      (freshBeside (lone "<?php\r\n").disk programs.path) := by
    rw [Refuses]
    decide +kernel
  refine (ends_register_readBytes (wellFormed_lone _) (fun _ h ↦ by cases h)
    (readBytes_lone _)).mono ?_ fun _ _ h ↦ hshort h.2.2
  rintro result t ⟨hadded, -, happends⟩
  have hnew : result.added = true := by
    rw [← Bool.not_eq_false, hadded]
    decide +kernel
  refine ⟨hnew, fun h ↦ ?_⟩
  have hlost := happends.1 h
  rw [hnew] at hlost
  revert hlost
  decide

/-! ## The lines of the file -/

/-- The route file has a line that is `line` up to blanks at its ends. -/
def HasLine (f : RouteFile) (line : String) (d : Disk) : Prop :=
  ∃ text, d.readText f.path = .ok text ∧ Text.HasLine text line

/-- A line of a file has no line breaks. -/
theorem HasLine.break_not_mem (h : f.HasLine line d) :
    '\n' ∉ line.toList ∧ '\r' ∉ line.toList := by
  obtain ⟨text, hread, hline⟩ := h
  refine ⟨hline.feed_not_mem, fun hmem ↦ ?_⟩
  exact cr_not_mem_of_readText hread ((Text.contains_iff.1 hline.contains).subset hmem)

theorem HasLine.of_keepsBytes (h : f.HasLine line d) (hkeeps : f.KeepsBytes d d') :
    f.HasLine line d' := by
  obtain ⟨text, hread, hline⟩ := h
  obtain ⟨content, hbytes, hdecode⟩ := readText_eq_ok_iff_readBytes.1 hread
  exact ⟨text, readText_eq_ok_iff_readBytes.2 ⟨content, hkeeps content hbytes, hdecode⟩, hline⟩

/-- A route is added exactly if it does not occur in the route file as a text. The file has a line
with it afterwards exactly if it can be a line, and was one before if it occurred at all. A
registration in a file that can be read fails only if the path of the temporary file is too long. -/
theorem ends_register_hasLine (hwf : s.disk.WellFormed) (hroot : f.root.Spelled) :
    Ends (f.register table controller) s
      (fun result t ↦
        (result.added = false ↔ f.Holds (routeLine table controller f.api) s.disk) ∧
        (f.HasLine (routeLine table controller f.api) t.disk ↔
          ('\n' ∉ (routeLine table controller f.api).toList ∧
            '\r' ∉ (routeLine table controller f.api).toList) ∧
          (f.Holds (routeLine table controller f.api) s.disk →
            f.HasLine (routeLine table controller f.api) s.disk)))
      fun _ _ ↦ f.Hindered (routeLine table controller f.api) s.disk := by
  refine (ends_register_registers hwf hroot).mono ?_ fun _ _ h ↦ h.2
  intro result t ⟨text, hfinds, hregisters⟩
  have hholds : Text.contains text (routeLine table controller f.api) = true ↔
      f.Holds (routeLine table controller f.api) s.disk := hfinds.contains_iff
  generalize result.added = isAdded at hregisters ⊢
  cases hregisters with
  | held hcontains hread hkeeps =>
    have hheld := hholds.1 hcontains
    refine ⟨by simp [hheld], fun hline ↦ ⟨hline.break_not_mem, fun _ ↦ ?_⟩,
      fun ⟨_, hline⟩ ↦ (hline hheld).of_keepsBytes hkeeps⟩
    obtain ⟨text', hread', hline⟩ := hline
    obtain rfl := Except.ok.inj (hread.symm.trans hread')
    exact ⟨text, hfinds.readText_of_contains hcontains, hline⟩
  | added hcontains hbytes =>
    have hfree : ¬f.Holds (routeLine table controller f.api) s.disk := by
      rw [← hholds, hcontains]
      exact Bool.false_ne_true
    refine ⟨by simp [hfree], fun hline ↦ ⟨hline.break_not_mem, fun hheld ↦ absurd hheld hfree⟩, ?_⟩
    intro ⟨⟨hfeed, hreturn⟩, _⟩
    have htext : '\r' ∉ (added text (routeLine table controller f.api)).toList := by
      simp [added, hfinds.cr_not_mem, hreturn]
    refine ⟨_, readText_of_readBytes hbytes, ?_⟩
    rw [Text.unified_eq_self_iff.2 htext]
    exact Text.hasLine_append hfeed (strip_routeLine table controller f.api)

/-- A route file with a route in a comment. -/
def commented : String :=
  "<?php\n// Route::apiResource('posts', \\App\\Http\\Controllers\\PostController::class);\n"

/-- The route in the comment counts as one that is there. -/
theorem lone_register_hasLine :
    Ends (programs.register "posts" "PostController") (lone commented)
      (fun result t ↦ result.added = false ∧
        ¬programs.HasLine (routeLine "posts" "PostController" true) t.disk)
      fun _ _ ↦ False := by
  have hread : (lone commented).disk.readText programs.path = .ok commented := by
    rw [readText_of_readBytes (readBytes_lone _), Text.unified_eq_self_iff.2 (by simp [commented])]
  have hcontains : Text.contains commented (routeLine "posts" "PostController" true) = true := by
    decide +kernel
  have hholds : programs.Holds (routeLine "posts" "PostController" true) (lone commented).disk :=
    ⟨commented, hread, hcontains⟩
  refine (ends_register_hasLine (wellFormed_lone _) (fun _ h ↦ by cases h)).mono ?_ fun _ _ h ↦ ?_
  · intro result t ⟨hadded, hline⟩
    refine ⟨hadded.2 hholds, fun h ↦ ?_⟩
    obtain ⟨text, hread', hthere⟩ := (hline.1 h).2 hholds
    obtain rfl := Except.ok.inj (hread.symm.trans hread')
    revert hthere
    decide +kernel
  · have hfree : Text.contains commented (routeLine "posts" "PostController" true) = false :=
      (h _ hread).1
    rw [hcontains] at hfree
    cases hfree

end RouteFile

end Scaffold
