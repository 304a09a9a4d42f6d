import Scaffold.Proofs.Route.Registration

/-!
# Several registrations in a row

The text that is searched for a route grows with every registration. A route is found in it exactly
if it was in the text at the start or was registered before: a route is not a part of another one,
and as it is on one line, it does not reach from one line into the next (`contains_extended_iff`).
So after a row of registrations the file holds what it held, and behind it the lines of the routes
that were not there, each once and in the order of their first registrations (`ends_registerAll`).
-/

namespace Scaffold

open Disk DiskOp

namespace RouteFile

variable {f : RouteFile} {s : Scene} {d : Disk} {table controller line text name : String}
  {route : String × String} {routes past : List (String × String)} {created : Bool}

/-! ## One route inside another -/

/-- The name can stand in a route: it has no line breaks, and none of the signs by which the ends of
a route are found. -/
def Fits (name : String) : Prop := ∀ c ∈ ['\n', '\r', '(', ';'], c ∉ name.toList

theorem Fits.of_words (h : name.toList.all (fun c ↦ c.isAlphanum || c == '_') = true) :
    Fits name := by
  intro c hc hmem
  have hword := List.all_eq_true.1 h c hmem
  revert hword
  fin_cases hc <;> decide

/-- A sign of a route that stands in neither of its names. -/
theorem count_routeLine {c : Char} (hc : c ∈ ['\n', '\r', '(', ';']) (htable : Fits table)
    (hcontroller : Fits controller) (api : Bool) :
    (routeLine table controller api).toList.count c = if c = '(' ∨ c = ';' then 1 else 0 := by
  have htable := List.count_eq_zero.2 (htable c hc)
  have hcontroller := List.count_eq_zero.2 (hcontroller c hc)
  rw [routeLine_eq]
  simp only [String.toList_append, List.count_append, htable, hcontroller]
  cases api <;> fin_cases hc <;> decide

theorem not_mem_routeLine {c : Char} (hc : c = '\n' ∨ c = '\r') (htable : Fits table)
    (hcontroller : Fits controller) (api : Bool) :
    c ∉ (routeLine table controller api).toList := by
  rw [← List.count_eq_zero, count_routeLine _ htable hcontroller]
  · rcases hc with rfl | rfl <;> decide
  · rcases hc with rfl | rfl <;> decide

/-- A route that is part of a route is that route: it has one bracket and one semicolon, so their
places must be the same, and in front of the bracket all routes are equal. -/
theorem routeLine_eq_of_infix {table' controller' : String} {api : Bool} (htable : Fits table)
    (hcontroller : Fits controller) (htable' : Fits table') (hcontroller' : Fits controller')
    (h : (routeLine table controller api).toList <:+: (routeLine table' controller' api).toList) :
    routeLine table controller api = routeLine table' controller' api := by
  obtain ⟨front, back, hsplit⟩ := h
  have hcount {c : Char} (hc : c ∈ ['(', ';']) : c ∉ front ∧ c ∉ back := by
    have hc' : c ∈ ['\n', '\r', '(', ';'] := by simp only [List.mem_cons] at hc ⊢; tauto
    have hcounts := congrArg (List.count c) hsplit
    rw [List.count_append, List.count_append, count_routeLine hc' htable hcontroller,
      count_routeLine hc' htable' hcontroller'] at hcounts
    rw [← List.count_eq_zero, ← List.count_eq_zero]
    omega
  have hback : back = [] := by
    have hlast := congrArg List.getLast? hsplit
    rw [routeLine_eq table', List.getLast?_concat, List.getLast?_append] at hlast
    rcases List.eq_nil_or_concat back with hnil | ⟨init, c, rfl⟩
    · exact hnil
    · simp only [List.concat_eq_append, List.getLast?_concat, Option.some_or,
        Option.some.injEq] at hlast
      exact absurd (by simp [hlast]) (hcount (c := ';') (by simp)).2
  have hfront : front = [] := by
    obtain ⟨head, hopening, hhead⟩ : ∃ head, (opening api).toList = head ++ ['('] ∧ '(' ∉ head := by
      cases api
      · exact ⟨"Route::resource".toList, by decide, by decide⟩
      · exact ⟨"Route::apiResource".toList, by decide, by decide⟩
    have htake (l l' : List Char) (hl : '(' ∉ l) :
        (l ++ '(' :: l').takeWhile (· != '(') = l := by
      refine (Text.takeWhile_dropWhile_append (fun c hc ↦ ?_) (by simp)).1
      rw [bne_iff_ne]
      rintro rfl
      exact hl hc
    have hbracket : '(' ∉ front ++ head := by simp [hhead, (hcount (c := '(') (by simp)).1]
    rw [hback, List.append_nil, routeLine_eq, routeLine_eq, hopening] at hsplit
    simp only [List.append_assoc, List.cons_append] at hsplit
    rw [← List.append_assoc] at hsplit
    have hstart := congrArg (List.takeWhile (· != '(')) hsplit
    rw [htake _ _ hbracket, htake _ _ hhead] at hstart
    simpa using hstart
  rw [hback, hfront, List.nil_append, List.append_nil] at hsplit
  exact String.toList_inj.1 hsplit

/-! ## The text of the file -/

/-- A text with lines behind it, each between line feeds. -/
def extended (text : String) (lines : List String) : String :=
  text ++ String.join (lines.map fun line ↦ "\n" ++ line ++ "\n")

/-- The lines that a text does not hold, each once. -/
def fresh (text : String) (lines : List String) : List String :=
  (lines.filter fun line ↦ !Text.contains text line).eraseDups

theorem extended_nil (text : String) : extended text [] = text := by simp [extended]

theorem extended_cons (text line : String) (lines : List String) :
    extended text (line :: lines) = extended (added text line) lines := by
  simp [extended, added_eq, String.append_assoc]

theorem extended_concat (text line : String) (lines : List String) :
    extended text (lines ++ [line]) = added (extended text lines) line := by
  simp [extended, added_eq, String.append_assoc]

theorem mem_fresh {lines : List String} :
    line ∈ fresh text lines ↔ line ∈ lines ∧ Text.contains text line = false := by
  rw [fresh, List.mem_eraseDups, List.mem_filter, Bool.not_eq_true']

theorem fresh_concat (text line : String) (lines : List String) :
    fresh text (lines ++ [line]) =
      if Text.contains text line = true ∨ line ∈ lines then fresh text lines
      else fresh text lines ++ [line] := by
  by_cases hcontains : Text.contains text line = true
  · simp [fresh, hcontains]
  · have hfilter (x : String) : (x ∈ lines.filter fun line ↦ !Text.contains text line) ↔
        x ∈ lines ∧ Text.contains text x = false := by simp
    by_cases hmem : line ∈ lines
    · simp [fresh, hcontains, hmem, List.eraseDups_append, List.removeAll]
    · simp [fresh, hcontains, hmem, List.eraseDups_append, List.removeAll, List.eraseDups_cons]

/-- A line is found where it was put, or where it was before: it is not cut in two by what stands
between two lines. -/
theorem contains_extended_iff {lines : List String} (hline : line ≠ "") (hfeed : '\n' ∉ line.toList)
    (hlines : ∀ l ∈ lines, line.toList <:+: l.toList → line = l) :
    Text.contains (extended text lines) line = true ↔
      Text.contains text line = true ∨ line ∈ lines := by
  induction lines generalizing text with
  | nil => simp [extended_nil]
  | cons l rest ih =>
    rw [extended_cons, ih fun l' hl' ↦ hlines l' (List.mem_cons_of_mem _ hl'), List.mem_cons,
      ← or_assoc]
    refine or_congr_left ?_
    have hadded : (added text l).toList = text.toList ++ '\n' :: (l.toList ++ '\n' :: []) := by
      simp [added]
    have hnil : ¬line.toList <:+: [] := by simpa using hline
    rw [Text.contains_iff, Text.contains_iff, hadded, Text.infix_append_cons_iff hfeed,
      Text.infix_append_cons_iff hfeed, or_iff_left hnil]
    refine or_congr_right ⟨hlines l List.mem_cons_self, ?_⟩
    rintro rfl
    exact List.infix_rfl

/-! ## One registration -/

/-- The routes of controllers, as lines of the file. -/
def lines (f : RouteFile) (routes : List (String × String)) : List String :=
  routes.map fun route ↦ routeLine route.1 route.2 f.api

/-- The text that the file has after registrations. -/
def after (f : RouteFile) (text : String) (routes : List (String × String)) : String :=
  extended text (fresh text (f.lines routes))

theorem cr_not_mem_after (htext : '\r' ∉ text.toList)
    (hfits : ∀ route ∈ routes, Fits route.1 ∧ Fits route.2) :
    '\r' ∉ (f.after text routes).toList := by
  have hlines : ∀ line ∈ fresh text (f.lines routes), '\r' ∉ line.toList := by
    intro line hline
    obtain ⟨route, hroute, rfl⟩ := List.mem_map.1 (mem_fresh.1 hline).1
    exact not_mem_routeLine (.inr rfl) (hfits route hroute).1 (hfits route hroute).2 f.api
  rw [after]
  generalize fresh text (f.lines routes) = new at hlines
  induction new generalizing text with
  | nil => rwa [extended_nil]
  | cons line rest ih =>
    rw [extended_cons]
    refine ih ?_ fun line' hline' ↦ hlines line' (List.mem_cons_of_mem _ hline')
    simp [added, htext, hlines line List.mem_cons_self]

theorem contains_after_iff (hfits : ∀ route ∈ routes, Fits route.1 ∧ Fits route.2)
    (htable : Fits table) (hcontroller : Fits controller) :
    Text.contains (f.after text routes) (routeLine table controller f.api) = true ↔
      Text.contains text (routeLine table controller f.api) = true ∨
        routeLine table controller f.api ∈ f.lines routes := by
  have hempty : routeLine table controller f.api ≠ "" := by
    rw [ne_eq, ← String.toList_inj, routeLine_eq]
    simp
  rw [after, contains_extended_iff hempty (not_mem_routeLine (.inl rfl) htable hcontroller f.api),
    mem_fresh]
  · by_cases hcontains : Text.contains text (routeLine table controller f.api) = true <;>
      simp [hcontains]
  · intro l hl hinfix
    obtain ⟨route, hroute, rfl⟩ := List.mem_map.1 (mem_fresh.1 hl).1
    exact routeLine_eq_of_infix htable hcontroller (hfits route hroute).1 (hfits route hroute).2 hinfix

/-- What a registration does once the file is there. -/
def append (f : RouteFile) (table controller : String) (created : Bool) : Run RouteResult := do
  let line := routeLine table controller f.api
  let content ← Run.readText f.path
  if Text.contains content line then
    Run.say (LogLine.warning "routes" s!"Route already exists: {line}")
    return ⟨line, relativePath f.api, false, created⟩
  Run.onDisk (DiskOp.writeFile f.path (Text.encode (content ++ "\n" ++ line ++ "\n")) true)
  let kind := if f.api then "API" else "Web"
  Run.say (LogLine.info "routes" s!"{kind} route added: {line}")
  return ⟨line, relativePath f.api, true, created⟩

theorem register_eq (f : RouteFile) (table controller : String) :
    f.register table controller = f.ensure >>= f.append table controller := rfl

/-- The file has the text, and nothing is in the way of writing to it. -/
structure Ready (f : RouteFile) (text : String) (d : Disk) : Prop where
  wellFormed : d.WellFormed
  readBytes : d.readBytes f.path = .ok (Text.encode text)
  not_refuses : ¬d.Refuses (freshBeside d f.path)

theorem ends_writeFile_readies (hwf : d.WellFormed) (hroot : f.root.Spelled) :
    Ends (writeFile f.path (Text.encode text) true) d (fun _ d' ↦ f.Ready text d')
      fun _ d' ↦ f.KeepsBytes d d' ∧
        (d.isFile f.path = .ok true → d.Refuses (freshBeside d f.path)) := by
  have hroom : Ends (writeFile f.path (Text.encode text) true) d
      (fun _ d' ↦ ¬d'.Refuses (freshBeside d' f.path)) fun _ _ ↦ True := by
    obtain ⟨parts, name, hparts, hspelled, hdots⟩ := exists_path_eq hroot
    rw [hparts]
    exact ends_writeFile_ready hwf hspelled hdots
  refine (((ends_writeFile_bytes hwf hroot).and (ends_writeFile_over hwf hroot)).and hroom).mono ?_ ?_
  · intro _ d' ⟨⟨⟨hgrows, hlocate, hfile⟩, _⟩, hready⟩
    refine ⟨hgrows.wellFormed, readBytes_eq_ok_iff.2 ?_, hready⟩
    rw [hgrows.resolve_eq]
    exact ⟨hlocate, hfile⟩
  · intro _ d' ⟨⟨⟨hgrows, _⟩, hover⟩, _⟩
    exact ⟨.of_grows hgrows, hover⟩

/-- A missing file is made, or nothing is there afterwards either. -/
theorem ends_ensure_new (hwf : s.disk.WellFormed) (hroot : f.root.Spelled)
    (hthere : s.disk.isThere f.path = .ok false) :
    Ends f.ensure s (fun _ t ↦ f.Ready (defaultContent f.api) t.disk)
      fun _ t ↦ f.KeepsBytes s.disk t.disk ∧ ¬Returns f.ensure s := by
  have hmade : Ends f.ensure s (fun _ t ↦ f.Ready (defaultContent f.api) t.disk)
      fun _ t ↦ f.KeepsBytes s.disk t.disk := by
    rw [ensure, ends_bind, Run.ends_query_of_ok hthere]
    simp only [Bool.false_eq_true, if_false, ends_bind, Run.ends_onDisk]
    refine (ends_writeFile_readies hwf hroot).mono (fun _ d' hready ↦ ?_) fun _ _ h ↦ h.1
    simp only [Run.ends_say, ends_pure]
    exact hready
  exact (hmade.and (ends_returns f.ensure s)).mono (fun _ _ h ↦ h.1) fun _ _ ↦ id

/-- The two ways in which a registration in a file with a text ends well. -/
inductive Appended (f : RouteFile) (line text : String) (d d' : Disk) : Bool → Prop
  | held (hcontains : Text.contains text line = true) (hdisk : d' = d) : Appended f line text d d' false
  | added (hfree : Text.contains text line = false) (hready : f.Ready (added text line) d') :
      Appended f line text d d' true

theorem ends_append (hwf : s.disk.WellFormed) (hroot : f.root.Spelled)
    (hread : s.disk.readBytes f.path = .ok (Text.encode text)) (htext : '\r' ∉ text.toList) :
    Ends (f.append table controller created) s
      (fun result t ↦ result.line = routeLine table controller f.api ∧
        f.Appended (routeLine table controller f.api) text s.disk t.disk result.added)
      fun _ t ↦ f.KeepsBytes s.disk t.disk ∧ s.disk.Refuses (freshBeside s.disk f.path) := by
  have hfound := readText_of_readBytes hread
  rw [Text.unified_eq_self_iff.2 htext] at hfound
  rw [append, ends_bind, Run.ends_readText_of_ok hfound]
  cases hcontains : Text.contains text (routeLine table controller f.api) with
  | true =>
    simp only [if_true, ends_bind, Run.ends_say, ends_pure]
    exact ⟨trivial, .held hcontains rfl⟩
  | false =>
    simp only [Bool.false_eq_true, if_false, ends_bind, Run.ends_onDisk]
    refine (ends_writeFile_readies hwf hroot).mono ?_ ?_
    · intro _ d' hready
      simp only [Run.ends_say, ends_pure]
      exact ⟨trivial, .added hcontains hready⟩
    · rintro _ _ ⟨hkeeps, hover⟩
      exact ⟨hkeeps, hover (isFile_of_readBytes hread)⟩

/-! ## A row of registrations -/

/-- Registers the routes of controllers, one after the other. -/
def registerAll (f : RouteFile) (routes : List (String × String)) : Run (List RouteResult) :=
  routes.mapM fun route ↦ f.register route.1 route.2

theorem registerAll_cons (f : RouteFile) (route : String × String) (routes : List (String × String)) :
    f.registerAll (route :: routes) = f.ensure >>= fun created ↦
      f.append route.1 route.2 created >>= fun result ↦ (result :: ·) <$> f.registerAll routes := by
  rw [registerAll, List.mapM_cons, register_eq, bind_assoc]
  rfl

/-- What the results of registrations say, behind those of earlier ones: which routes they are for,
and which of them were added. -/
def Tells (f : RouteFile) (text : String) (past routes : List (String × String))
    (results : List RouteResult) : Prop :=
  results.map (·.line) = f.lines routes ∧
    fresh text (f.lines (past ++ routes)) =
      fresh text (f.lines past) ++ (results.filter (·.added)).map (·.line)

theorem lines_concat (f : RouteFile) (past : List (String × String)) (route : String × String) :
    f.lines (past ++ [route]) = f.lines past ++ [routeLine route.1 route.2 f.api] := by
  simp [lines]

/-- What one registration comes to for the text of the file and for the routes that were added. -/
theorem fresh_lines_concat (hfits : ∀ r ∈ past ++ [route], Fits r.1 ∧ Fits r.2) :
    fresh text (f.lines (past ++ [route])) =
      if Text.contains (f.after text past) (routeLine route.1 route.2 f.api) = true then
        fresh text (f.lines past)
      else fresh text (f.lines past) ++ [routeLine route.1 route.2 f.api] := by
  rw [lines_concat, fresh_concat]
  have hroute := hfits route (by simp)
  refine if_congr (contains_after_iff (fun r hr ↦ hfits r (by simp [hr])) hroute.1 hroute.2).symm rfl rfl

theorem Tells.cons {result : RouteResult} {results : List RouteResult}
    (h : f.Tells text past [route] [result]) (h' : f.Tells text (past ++ [route]) routes results) :
    f.Tells text past (route :: routes) (result :: results) := by
  refine ⟨?_, ?_⟩
  · have hline := h.1
    rw [List.map_singleton, lines, List.map_singleton] at hline
    rw [List.map_cons, h'.1, (List.cons.inj hline).1]
    rfl
  · have hfresh := h'.2
    rw [List.append_assoc, List.singleton_append] at hfresh
    rw [hfresh, h.2, List.append_assoc, ← List.map_append, ← List.filter_append]
    rfl

/-- A registration, from the text that earlier ones have left. -/
theorem ends_append_after (hwf : s.disk.WellFormed) (hroot : f.root.Spelled)
    (hread : s.disk.readBytes f.path = .ok (Text.encode (f.after text past)))
    (htext : '\r' ∉ text.toList) (hfits : ∀ r ∈ past ++ [route], Fits r.1 ∧ Fits r.2) :
    Ends (f.append route.1 route.2 created) s
      (fun result t ↦ t.disk.WellFormed ∧
        t.disk.readBytes f.path = .ok (Text.encode (f.after text (past ++ [route]))) ∧
        (t.disk = s.disk ∨ ¬t.disk.Refuses (freshBeside t.disk f.path)) ∧
        f.Tells text past [route] [result])
      fun _ t ↦ f.KeepsBytes s.disk t.disk ∧ s.disk.Refuses (freshBeside s.disk f.path) := by
  have hpast : '\r' ∉ (f.after text past).toList :=
    cr_not_mem_after htext fun r hr ↦ hfits r (List.mem_append_left _ hr)
  have hnew : fresh text (f.lines (past ++ [route])) = _ := fresh_lines_concat hfits
  refine (ends_append hwf hroot hread hpast).mono ?_ fun _ _ ↦ id
  intro result t ⟨hline, happended⟩
  have hlines : [result].map (·.line) = f.lines [route] := by
    rw [List.map_singleton, hline]
    rfl
  generalize hadded : result.added = isAdded at happended
  cases happended with
  | held hcontains hdisk =>
    rw [if_pos hcontains] at hnew
    refine ⟨hdisk ▸ hwf, ?_, .inl hdisk, hlines, ?_⟩
    · rw [hdisk, after, hnew]
      exact hread
    · simp [hnew, hadded]
  | added hfree hready =>
    rw [if_neg (by simp [hfree])] at hnew
    refine ⟨hready.wellFormed, ?_, .inr hready.not_refuses, hlines, ?_⟩
    · rw [after, hnew, extended_concat]
      exact hready.readBytes
    · simp [hnew, hadded, hline]

/-- A registration and those behind it, from the text that earlier ones have left. The file can only
refuse the first route that is added: where one was written there is room for the next. -/
theorem ends_append_registerAll (hwf : s.disk.WellFormed) (hroot : f.root.Spelled)
    (hread : s.disk.readBytes f.path = .ok (Text.encode (f.after text past)))
    (htext : '\r' ∉ text.toList) (hfits : ∀ r ∈ past ++ route :: routes, Fits r.1 ∧ Fits r.2) :
    Ends (f.append route.1 route.2 created >>= fun result ↦ (result :: ·) <$> f.registerAll routes) s
      (fun results t ↦
        t.disk.readBytes f.path = .ok (Text.encode (f.after text (past ++ route :: routes))) ∧
          f.Tells text past (route :: routes) results)
      fun _ t ↦ f.KeepsBytes s.disk t.disk ∧ s.disk.Refuses (freshBeside s.disk f.path) := by
  induction routes generalizing s past route created with
  | nil =>
    rw [ends_bind]
    refine (ends_append_after hwf hroot hread htext hfits).mono ?_ fun _ _ ↦ id
    intro result t ⟨_, hread', _, htells⟩
    rw [ends_map]
    exact (ends_pure _).2 ⟨hread', htells⟩
  | cons next routes ih =>
    rw [← List.singleton_append, ← List.append_assoc] at hfits
    rw [ends_bind]
    refine (ends_append_after hwf hroot hread htext fun r hr ↦
      hfits r (List.mem_append_left _ hr)).mono ?_ fun _ _ ↦ id
    intro result t ⟨hwf', hread', hroom, htells⟩
    have hthere := isThere_of_readBytes hread'
    rw [ends_map, registerAll_cons, ends_bind, ensure, ends_bind, Run.ends_query_of_ok hthere]
    simp only [if_true, ends_pure]
    refine (ih hwf' hread' hfits).mono ?_ ?_
    · intro results u ⟨hread'', htells'⟩
      rw [List.append_assoc] at hread''
      exact ⟨hread'', htells.cons htells'⟩
    · intro _ u ⟨hkeeps, hrefuses⟩
      rcases hroom with hsame | hroom
      · rw [hsame] at hkeeps hrefuses
        exact ⟨hkeeps, hrefuses⟩
      · exact absurd hrefuses hroom

/-! ## Routes that are there -/

theorem ends_registerAll_of_holds (h : ∀ line ∈ f.lines routes, f.Holds line s.disk) :
    Ends (f.registerAll routes) s
      (fun results t ↦ t.disk = s.disk ∧ ∀ result ∈ results, result.added = false)
      fun _ _ ↦ False := by
  have hall : Ends (f.registerAll routes) s
      (fun results t ↦ List.Forall₂ (fun _ result ↦ result.added = false) routes results ∧
        t.disk = s.disk) fun _ _ ↦ False := by
    refine Ends.mapM rfl fun route hroute t hdisk ↦ ?_
    have hholds := h _ (List.mem_map_of_mem hroute)
    rw [← hdisk] at hholds
    refine (ends_register_of_holds hholds).mono ?_ fun _ _ ↦ id
    rintro _ u ⟨_, hdisk', rfl⟩
    exact ⟨rfl, hdisk'.trans hdisk⟩
  refine hall.mono ?_ fun _ _ ↦ id
  intro results t ⟨hresults, hdisk⟩
  refine ⟨hdisk, fun result hresult ↦ ?_⟩
  obtain ⟨_, _, hadded⟩ := exists_of_forall₂_of_mem_right hresults hresult
  exact hadded

/-- The routes of registrations that ended well are in the file. -/
theorem holds_after (hread : d.readBytes f.path = .ok (Text.encode (f.after text routes)))
    (htext : '\r' ∉ text.toList) (hfits : ∀ r ∈ routes, Fits r.1 ∧ Fits r.2) :
    ∀ line ∈ f.lines routes, f.Holds line d := by
  intro line hline
  obtain ⟨route, hroute, rfl⟩ := List.mem_map.1 hline
  refine ⟨f.after text routes, ?_, ?_⟩
  · rw [readText_of_readBytes hread, Text.unified_eq_self_iff.2 (cr_not_mem_after htext hfits)]
  · exact (contains_after_iff hfits (hfits route hroute).1 (hfits route hroute).2).2 (.inr hline)

/-! ## The whole row -/

/-- The text that a row of registrations starts from: that of a file without carriage returns, or
that of a new file if there is none. -/
inductive Starts (f : RouteFile) (d : Disk) : String → Prop
  | there {text : String} (hread : d.readBytes f.path = .ok (Text.encode text))
      (htext : '\r' ∉ text.toList) : Starts f d text
  | new (hthere : d.isThere f.path = .ok false) : Starts f d (defaultContent f.api)

/-- Why a row of registrations can break off: the path of the temporary file beside the route file is
too long, or there is no route file and none can be made. -/
def Blocked (f : RouteFile) (s : Scene) : Prop :=
  s.disk.isThere f.path = .ok true ∧ s.disk.Refuses (freshBeside s.disk f.path) ∨
    s.disk.isThere f.path = .ok false ∧ ¬Returns f.ensure s

/-- After a row of registrations the file has the text from the start, and behind it the line of each
route that this text does not hold: each once, in the order of their first registrations, and these
are the ones that are reported as added. To register some of the routes again, in any order and any
number of times, changes nothing and adds none. A row that breaks off leaves the bytes of the file. -/
theorem ends_registerAll (hwf : s.disk.WellFormed) (hroot : f.root.Spelled)
    (hstarts : f.Starts s.disk text) (hfits : ∀ r ∈ routes, Fits r.1 ∧ Fits r.2) :
    Ends (f.registerAll routes) s
      (fun results t ↦ (routes = [] → t = s) ∧
        (routes ≠ [] → t.disk.readBytes f.path =
          .ok (Text.encode (extended text (fresh text (f.lines routes))))) ∧
        results.map (·.line) = f.lines routes ∧
        (results.filter (·.added)).map (·.line) = fresh text (f.lines routes) ∧
        ∀ again ⊆ routes, Ends (f.registerAll again) t
          (fun results' u ↦ u.disk = t.disk ∧ ∀ result ∈ results', result.added = false)
          fun _ _ ↦ False)
      fun _ t ↦ f.KeepsBytes s.disk t.disk ∧ f.Blocked s := by
  rcases routes with _ | ⟨route, routes⟩
  · refine (ends_pure _).2 ⟨fun _ ↦ rfl, fun h ↦ absurd rfl h, rfl, rfl, fun again hagain ↦ ?_⟩
    obtain rfl := List.subset_nil.1 hagain
    exact (ends_pure _).2 ⟨rfl, by simp⟩
  -- The file is there when the first route comes to it.
  have hrow (t : Scene) (created : Bool) (htext : '\r' ∉ text.toList) (hwf' : t.disk.WellFormed)
      (hread : t.disk.readBytes f.path = .ok (Text.encode text)) :
      Ends (f.append route.1 route.2 created >>= fun result ↦ (result :: ·) <$> f.registerAll routes)
        t (fun results u ↦ (route :: routes = [] → u = s) ∧
          (route :: routes ≠ [] → u.disk.readBytes f.path =
            .ok (Text.encode (extended text (fresh text (f.lines (route :: routes)))))) ∧
          results.map (·.line) = f.lines (route :: routes) ∧
          (results.filter (·.added)).map (·.line) = fresh text (f.lines (route :: routes)) ∧
          ∀ again ⊆ route :: routes, Ends (f.registerAll again) u
            (fun results' v ↦ v.disk = u.disk ∧ ∀ result ∈ results', result.added = false)
            fun _ _ ↦ False)
        fun _ u ↦ f.KeepsBytes t.disk u.disk ∧ t.disk.Refuses (freshBeside t.disk f.path) := by
    have hbefore : t.disk.readBytes f.path = .ok (Text.encode (f.after text [])) := by
      rw [show f.after text [] = text from extended_nil text]
      exact hread
    refine (ends_append_registerAll hwf' hroot hbefore htext hfits).mono ?_ fun _ _ ↦ id
    intro results u ⟨hread', hlines, hfresh⟩
    refine ⟨nofun, fun _ ↦ hread', hlines, hfresh.symm, fun again hagain ↦ ?_⟩
    refine ends_registerAll_of_holds fun line hline ↦ ?_
    exact holds_after hread' htext hfits line (List.map_subset _ hagain hline)
  rw [registerAll_cons, ends_bind]
  cases hstarts with
  | there hread htext =>
    have hthere := isThere_of_readBytes hread
    rw [ensure, ends_bind, Run.ends_query_of_ok hthere]
    simp only [if_true, ends_pure]
    exact (hrow s false htext hwf hread).mono (fun _ _ ↦ id) fun _ _ ⟨hkeeps, hrefuses⟩ ↦
      ⟨hkeeps, .inl ⟨hthere, hrefuses⟩⟩
  | new hthere =>
    refine (ends_ensure_new hwf hroot hthere).mono ?_ ?_
    · intro created t hready
      exact (hrow t created (cr_not_mem_defaultContent f.api) hready.wellFormed
        hready.readBytes).mono (fun _ _ ↦ id) fun _ _ h ↦ absurd h.2 hready.not_refuses
    · exact fun _ _ ⟨hkeeps, hfails⟩ ↦ ⟨hkeeps, .inr ⟨hthere, hfails⟩⟩

/-- Of three registrations of two routes, one has its route in the file and one comes again. -/
theorem lone_registerAll :
    Ends (programs.registerAll [("tags", "TagController"), ("posts", "PostController"),
        ("tags", "TagController")]) (lone commented)
      (fun results t ↦ (results.filter (·.added)).map (·.line) =
          ["Route::apiResource('tags', \\App\\Http\\Controllers\\TagController::class);"] ∧
        t.disk.readBytes programs.path = .ok (Text.encode (commented ++
          "\nRoute::apiResource('tags', \\App\\Http\\Controllers\\TagController::class);\n")))
      fun _ _ ↦ False := by
  have hnew : fresh commented (programs.lines [("tags", "TagController"),
      ("posts", "PostController"), ("tags", "TagController")]) =
        ["Route::apiResource('tags', \\App\\Http\\Controllers\\TagController::class);"] := by
    decide +kernel
  have hfits : ∀ route ∈ [("tags", "TagController"), ("posts", "PostController"),
      ("tags", "TagController")], Fits route.1 ∧ Fits route.2 := by
    simp only [List.forall_mem_cons]
    refine ⟨⟨.of_words ?_, .of_words ?_⟩, ⟨.of_words ?_, .of_words ?_⟩, ⟨.of_words ?_, .of_words ?_⟩,
      by simp⟩ <;> decide +kernel
  refine (ends_registerAll (wellFormed_lone _) (fun _ h ↦ by cases h)
    (.there (readBytes_lone _) (by simp [commented])) hfits).mono ?_ ?_
  · rintro results t ⟨-, hread, -, hadded, -⟩
    rw [hnew] at hread hadded
    refine ⟨hadded, ?_⟩
    rw [hread (by simp)]
    simp [extended]
  · rintro _ _ ⟨_, ⟨_, hrefuses⟩ | ⟨hmissing, _⟩⟩
    · revert hrefuses
      rw [Refuses]
      decide +kernel
    · rw [isThere_of_readBytes (readBytes_lone _)] at hmissing
      cases hmissing

end RouteFile

end Scaffold
