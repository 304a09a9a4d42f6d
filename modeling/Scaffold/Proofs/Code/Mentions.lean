import Mathlib
import Scaffold.Proofs.Code.Levels

/-!
# The variables that generated code mentions

A line mentions a variable wherever a dollar sign stands, with the characters of names behind it. So
the variables that code mentions can be read off the lines that it prints (`Stmt.allMentions`), as long
as the names of relations and columns in it have no dollar signs themselves.
-/

namespace Scaffold

namespace Stmt

/-! ## Reading variables off lines -/

/-- The variables that a text mentions. -/
def mentionedIn : List Char → List String
  | [] => []
  | c :: rest =>
    if c = '$' then String.ofList ('$' :: rest.takeWhile isNameChar) :: mentionedIn rest
    else mentionedIn rest

def mentions (line : String) : List String := mentionedIn line.toList

theorem mentionedIn_cons_of_ne {c : Char} (h : c ≠ '$') (l : List Char) :
    mentionedIn (c :: l) = mentionedIn l := by
  rw [mentionedIn, if_neg h]

theorem mentionedIn_append_of_not_mem {s : List Char} (h : '$' ∉ s) (l : List Char) :
    mentionedIn (s ++ l) = mentionedIn l := by
  induction s with
  | nil => rfl
  | cons c rest ih =>
    rw [List.mem_cons, not_or] at h
    rw [List.cons_append, mentionedIn_cons_of_ne (Ne.symm h.1), ih h.2]

/-- A text that brings no variable into a line. -/
def Mute (s : String) : Prop := '$' ∉ s.toList

instance (s : String) : Decidable (Mute s) := inferInstanceAs (Decidable ('$' ∉ s.toList))

theorem Mute.mentionedIn {s : String} (h : Mute s) (l : List Char) :
    mentionedIn (s.toList ++ l) = Stmt.mentionedIn l := mentionedIn_append_of_not_mem h l

theorem Mute.mentionedIn_self {s : String} (h : Mute s) : Stmt.mentionedIn s.toList = [] := by
  simpa [Stmt.mentionedIn] using h.mentionedIn []

theorem mute_of_isNameChar {s : String} (h : ∀ c ∈ s.toList, isNameChar c = true) : Mute s := by
  intro hmem
  have := h '$' hmem
  revert this
  decide

/-- An expression that starts with the variable and goes on without mentioning others. -/
def LeadsFrom (x e : String) : Prop :=
  IsVariable x ∧ ∃ way : List Char, e.toList = x.toList ++ way ∧ '$' ∉ way ∧
    ∀ c ∈ way.head?, isNameChar c = false

theorem IsVariable.leadsFrom {x : String} (h : IsVariable x) : LeadsFrom x x :=
  ⟨h, [], by simp⟩

theorem LeadsFrom.append {x e more : String} (h : LeadsFrom x e) (hmore : '$' ∉ more.toList)
    (hhead : ∀ c ∈ more.toList.head?, isNameChar c = false) : LeadsFrom x (e ++ more) := by
  obtain ⟨hx, way, hway, hdollar, hname⟩ := h
  refine ⟨hx, way ++ more.toList, by simp [hway], by simp [hdollar, hmore], fun c hc ↦ ?_⟩
  cases way with
  | nil => exact hhead c hc
  | cons d rest => exact hname c hc

/-- An expression mentions its variable, if its end is that of the name. -/
theorem LeadsFrom.mentionedIn {x e : String} (h : LeadsFrom x e) {d : Char}
    (hd : isNameChar d = false) (l : List Char) :
    mentionedIn (e.toList ++ d :: l) = x :: mentionedIn (d :: l) := by
  obtain ⟨⟨name, hname, hx⟩, way, hway, hdollar, hhead⟩ := h
  have hplain : '$' ∉ name := fun hmem ↦ by
    have := List.all_eq_true.1 hname '$' hmem
    revert this
    decide
  have hend : ∀ c ∈ (way ++ d :: l).head?, isNameChar c = false := by
    cases way with
    | nil => simpa using hd
    | cons c rest => simpa using hhead c rfl
  have hfirst : (name ++ (way ++ d :: l)).takeWhile isNameChar = name :=
    (Text.takeWhile_dropWhile_append (List.all_eq_true.1 hname) hend).1
  rw [hway, hx, List.cons_append, List.cons_append, List.append_assoc, Stmt.mentionedIn, if_pos rfl,
    hfirst, mentionedIn_append_of_not_mem hplain, mentionedIn_append_of_not_mem hdollar, ← hx,
    String.ofList_toList]

/-- What is reached from a record is an expression with its variable. -/
theorem LeadsFrom.arrow {x e name : String} (h : LeadsFrom x e) (hname : Mute name) :
    LeadsFrom x s!"{e}->{name}" := by
  have harrow : Mute ("->" ++ name) := by
    rw [Mute] at hname
    simp [Mute, hname]
  have := h.append harrow (by simp [isNameChar])
  rwa [← String.append_assoc] at this

/-- An item of an array is an expression with the variable of the array. -/
theorem LeadsFrom.index {x e key : String} (h : LeadsFrom x e) (hkey : Mute key) :
    LeadsFrom x s!"{e}['{key}']" := by
  have hindex : Mute ("['" ++ (key ++ "']")) := by
    rw [Mute] at hkey
    simp [Mute, hkey]
  have := h.append hindex (by simp [isNameChar])
  rwa [← String.append_assoc, ← String.append_assoc] at this

theorem mem_mentions_foreach {x e item v : String} (he : LeadsFrom x e) (hitem : IsVariable item)
    (hv : v ∈ mentions (s!"foreach ({e} as {item})" ++ " \x7b")) : v = x ∨ v = item := by
  simpa [mentions, toString, he.mentionedIn, hitem.leadsFrom.mentionedIn, Stmt.mentionedIn, isNameChar]
    using hv

theorem mem_mentions_if {x e v : String} (he : LeadsFrom x e)
    (hv : v ∈ mentions (s!"if ({e})" ++ " \x7b")) : v = x := by
  simpa [mentions, toString, he.mentionedIn, Stmt.mentionedIn, isNameChar] using hv

/-! ## Reading variables off code -/

/-- The variables that the lines of code mention. -/
def allMentions (code : List Stmt) : List String := (allLines code).flatMap mentions

theorem mute_spaces (width : Nat) : Mute (Text.spaces width) := by
  intro hmem
  rw [Text.spaces, String.toList_ofList] at hmem
  have := List.eq_of_mem_replicate hmem
  revert this
  decide

theorem mentions_indentBy (width : Nat) (lines : List String) :
    (Text.indentBy width lines).flatMap mentions = lines.flatMap mentions := by
  rw [Text.indentBy, List.flatMap_map]
  refine List.flatMap_congr fun line _ ↦ ?_
  split
  · rfl
  · rw [mentions, String.toList_append, (mute_spaces width).mentionedIn, mentions]

@[simp] theorem allMentions_nil : allMentions [] = [] := rfl

@[simp] theorem allMentions_append (code more : List Stmt) :
    allMentions (code ++ more) = allMentions code ++ allMentions more := by
  rw [allMentions, allLines_append, List.flatMap_append]
  rfl

theorem allMentions_cons (s : Stmt) (rest : List Stmt) :
    allMentions (s :: rest) = allMentions [s] ++ allMentions rest := allMentions_append [s] rest

@[simp] theorem allMentions_line (text : String) : allMentions [line text] = mentions text := by
  simp [allMentions, allLines, lines]

/-- A line that ends with a name, such as a comment. -/
theorem allMentions_line_of_mute {start name : String} (hstart : Mute start) (hname : Mute name) :
    allMentions [line (start ++ name)] = [] := by
  simp [mentions, hstart.mentionedIn, hname.mentionedIn_self]

@[simp] theorem allMentions_block (head : String) (body : List Stmt) (close : String) :
    allMentions [block head body close] = mentions head ++ allMentions body ++ mentions close := by
  simp [allMentions, allLines, lines, mentions_indentBy]

@[simp] theorem allMentions_braces (head : String) (body : List Stmt) :
    allMentions [braces head body] = mentions (head ++ " \x7b") ++ allMentions body := by
  rw [braces, allMentions_block]
  simp [mentions, mentionedIn]

@[simp] theorem allMentions_choice (head : String) (yes no : List Stmt) :
    allMentions [choice head yes no] = mentions head ++ (allMentions yes ++ allMentions no) := by
  simp [allMentions, allLines, lines, mentions_indentBy, mentions, mentionedIn]

theorem allMentions_eq_flatMap (code : List Stmt) :
    allMentions code = code.flatMap fun s ↦ allMentions [s] := by
  induction code with
  | nil => rfl
  | cons s rest ih => rw [allMentions_cons, ih, List.flatMap_cons]

theorem allMentions_gap : allMentions [gap] = [] := by
  simp [allMentions, allLines, lines, mentions, mentionedIn]

@[simp] theorem allMentions_spaced (groups : List (List Stmt)) :
    allMentions (spaced groups) = groups.flatMap allMentions := by
  rw [allMentions_eq_flatMap, flatMap_spaced _ allMentions_gap]
  exact List.flatMap_congr fun group _ ↦ (allMentions_eq_flatMap group).symm

end Stmt

open Stmt

variable {fields : List Field} {v x : String}

/-! ## Texts without variables -/

theorem isNameChar_of_mem_snake {name : String} :
    ∀ c ∈ (Name.snake name).toList, isNameChar c = true := fun c hc ↦ by
  simpa [isNameChar] using Name.isAlphanum_of_mem_snake c hc

theorem mute_requestKey (r : Relation) : Mute r.requestKey :=
  mute_of_isNameChar isNameChar_of_mem_snake

theorem mute_folder (entity : String) : Mute (Attachment.folder entity) :=
  mute_of_isNameChar isNameChar_of_mem_snake

theorem Text.not_mem_intercalate {c : Char} {sep : String} {texts : List String}
    (hsep : c ∉ sep.toList) (h : ∀ t ∈ texts, c ∉ t.toList) : c ∉ (sep.intercalate texts).toList := by
  intro hmem
  rw [String.toList_intercalate] at hmem
  rcases Name.mem_of_mem_intercalate hmem with hmem | ⟨l, hl, hmem⟩
  · exact hsep hmem
  · obtain ⟨t, ht, rfl⟩ := List.mem_map.1 hl
    exact h t ht hmem

theorem Text.not_mem_quoted {c : Char} {s : String} (hslash : c ≠ '\\') (hquote : c ≠ '\'')
    (h : c ∉ s.toList) : c ∉ (Text.quoted s).toList := by
  have hescape (l : List Char) (hl : c ∉ l) : c ∉ Text.escapeQuoted l := by
    induction l with
    | nil => simp [Text.escapeQuoted]
    | cons d rest ih =>
      rw [List.mem_cons, not_or] at hl
      rw [Text.escapeQuoted]
      split <;> simp [hslash, hl.1, ih hl.2]
  simp [Text.quoted, hquote, hescape _ h]

theorem mute_quotedList {texts : List String} (h : ∀ t ∈ texts, Mute t) :
    Mute (Text.quotedList texts) := by
  have hlist : Mute (", ".intercalate (texts.map Text.quoted)) :=
    Text.not_mem_intercalate (by decide)
      (List.forall_mem_map.2 fun t ht ↦ Text.not_mem_quoted (by decide) (by decide) (h t ht))
  simpa [Mute, Text.quotedList] using hlist

/-- No name in the nested request brings a variable into code. -/
structure NestedRelation.Mute (n : NestedRelation) : Prop where
  name : Stmt.Mute n.relation.name
  fields : ∀ field ∈ n.fields, Stmt.Mute field.name

/-- No name in the configuration brings a variable into code. -/
structure Configuration.Mute (c : Configuration) : Prop where
  studly : Stmt.Mute c.studly
  loads : ∀ name ∈ c.eagerLoads, Stmt.Mute name
  fields : ∀ field ∈ c.fields, Stmt.Mute field.name
  nodes : ∀ n, NestedRelation.Within c.nested n → n.Mute

/-! ## Code for files -/

namespace Attachment

variable {data slug record path : String}

/-- What holds of the names of all fields, holds of those that store files. -/
theorem of_mem_attachments {P : String → Prop} (h : ∀ field ∈ fields, P field.name) {f : String}
    (hf : f ∈ Field.attachments fields) : P f := by
  obtain ⟨field, hfield, rfl⟩ := List.mem_map.1 hf
  exact h field (List.mem_of_mem_filter hfield)

theorem of_nameField? {P : String → Prop} (hcolumns : ∀ column ∈ nameColumns, P column)
    (h : ∀ field ∈ fields, P field.name) {f : String} (hf : nameField? fields = some f) : P f := by
  rw [nameField?] at hf
  split at hf
  · next hcolumn => exact hcolumns f (Option.some.inj hf ▸ List.mem_of_find?_eq_some hcolumn)
  · obtain ⟨field, hfield, rfl⟩ := Option.map_eq_some_iff.1 hf
    exact h field (List.mem_of_find?_eq_some hfield)

theorem mem_mentions_nameCode (hslug : IsVariable slug) (hdata : IsVariable data)
    (hfields : ∀ field ∈ fields, Mute field.name) {fallback : Option String}
    (hfallback : ∀ e ∈ fallback, LeadsFrom x e)
    (hv : v ∈ allMentions (nameCode fields data slug fallback)) : v = slug ∨ v = data ∨ v = x := by
  have hsource : ∀ v ∈ mentions s!"{slug} = (string) ({nameSource fields data fallback});",
      v = slug ∨ v = data ∨ v = x := by
    rw [nameSource]
    split
    · simp [mentions, toString, hslug.leadsFrom.mentionedIn, mentionedIn, isNameChar]
    · next f hf =>
      have hf : Mute f := of_nameField? (by decide) hfields hf
      cases fallback with
      | none =>
        simp [mentions, toString, hslug.leadsFrom.mentionedIn, hdata.leadsFrom.mentionedIn, hf.mentionedIn,
          mentionedIn, isNameChar]
      | some e =>
        have he := hfallback e rfl
        simp [mentions, toString, hslug.leadsFrom.mentionedIn, hdata.leadsFrom.mentionedIn, hf.mentionedIn,
          he.mentionedIn, mentionedIn, isNameChar]
  have hlong : mentions (s!"if (strlen({slug}) > 20)" ++ " \x7b") = [slug] := by
    simp [mentions, toString, hslug.leadsFrom.mentionedIn, mentionedIn, isNameChar]
  have hcut : mentions s!"{slug} = substr({slug}, 0, 20);" = [slug, slug] := by
    simp [mentions, toString, hslug.leadsFrom.mentionedIn, mentionedIn, isNameChar]
  have hlast : mentions s!"{slug} = Str::slug({slug});" = [slug, slug] := by
    simp [mentions, toString, hslug.leadsFrom.mentionedIn, mentionedIn, isNameChar]
  rw [nameCode] at hv
  split at hv
  · simp at hv
  · simp only [allMentions_eq_flatMap (_ :: _ :: _), List.flatMap_cons, List.flatMap_nil,
      allMentions_line, allMentions_braces, hlong, hcut, hlast, List.mem_append] at hv
    rcases hv with hv | hv
    · exact hsource v hv
    · exact .inl (by simpa using hv)

theorem mem_mentions_uploadCode (hdata : IsVariable data) (hslug : IsVariable slug)
    (hfields : ∀ field ∈ fields, Mute field.name) {entity : String}
    (hv : v ∈ allMentions (uploadCode fields entity data slug)) : v = data ∨ v = slug := by
  rw [uploadCode, allMentions_eq_flatMap, List.flatMap_map] at hv
  obtain ⟨f, hf, hv⟩ := List.mem_flatMap.1 hv
  have hf : Mute f := of_mem_attachments hfields hf
  simpa [uploadField, mentions, toString, hslug.leadsFrom.mentionedIn, hdata.leadsFrom.mentionedIn,
    hf.mentionedIn, (mute_folder entity).mentionedIn, mentionedIn, isNameChar] using hv

theorem mem_mentions_captureCode (hrecord : LeadsFrom x record)
    (hfields : ∀ field ∈ fields, Mute field.name)
    (hv : v ∈ allMentions (captureCode fields record path)) :
    (∃ field, v = oldVariable path field) ∨ v = x := by
  rw [captureCode, allMentions_eq_flatMap, List.flatMap_map] at hv
  obtain ⟨f, hf, hv⟩ := List.mem_flatMap.1 hv
  have hold := (isVariable_oldVariable path f).leadsFrom
  have hf : Mute f := of_mem_attachments hfields hf
  have hlist : allMentions [captureField record path f] = [oldVariable path f, x] := by
    simp [captureField, mentions, toString, hold.mentionedIn, hrecord.mentionedIn, hf.mentionedIn,
      mentionedIn, isNameChar]
  simp only [hlist, List.mem_cons, List.not_mem_nil, or_false] at hv
  exact hv.imp_left fun hv ↦ ⟨f, hv⟩

theorem mem_mentions_releaseCode (hdata : IsVariable data)
    (hfields : ∀ field ∈ fields, Mute field.name)
    (hv : v ∈ allMentions (releaseCode fields data path)) :
    (∃ field, v = oldVariable path field) ∨ v = data := by
  rw [releaseCode, allMentions_eq_flatMap, List.flatMap_map] at hv
  obtain ⟨f, hf, hv⟩ := List.mem_flatMap.1 hv
  have hold := (isVariable_oldVariable path f).leadsFrom
  have hf : Mute f := of_mem_attachments hfields hf
  have hlist : allMentions [releaseField data path f] =
      [data, oldVariable path f, data, oldVariable path f, oldVariable path f] := by
    simp [releaseField, mentions, toString, hold.mentionedIn, hdata.leadsFrom.mentionedIn,
      hf.mentionedIn, mentionedIn, isNameChar]
  simp only [hlist, List.mem_cons, List.not_mem_nil, or_false] at hv
  rcases hv with hv | hv | hv | hv | hv
  exacts [.inr hv, .inl ⟨f, hv⟩, .inr hv, .inl ⟨f, hv⟩, .inl ⟨f, hv⟩]

theorem mem_mentions_purgeCode (hrecord : LeadsFrom x record)
    (hfields : ∀ field ∈ fields, Mute field.name)
    (hv : v ∈ allMentions (purgeCode fields record)) : v = x := by
  rw [purgeCode, allMentions_eq_flatMap, List.flatMap_map] at hv
  obtain ⟨f, hf, hv⟩ := List.mem_flatMap.1 hv
  have hf : Mute f := of_mem_attachments hfields hf
  simpa [purgeField, mentions, toString, hrecord.mentionedIn, hf.mentionedIn, mentionedIn, isNameChar] using hv

end Attachment

/-! ## Code for nested requests -/

namespace Code

open NestedRelation (Within)

theorem mem_mentions_splitCode {source nested data : String} {keys more : List String}
    (hnested : IsVariable nested) (hdata : IsVariable data) (hsource : LeadsFrom x source)
    (hkeys : ∀ key ∈ keys ++ more, Mute key)
    (hv : v ∈ allMentions (splitCode source keys nested data more)) :
    v = nested ∨ v = data ∨ v = x := by
  have htaken := mute_quotedList fun key hkey ↦ hkeys key (List.mem_append_left _ hkey)
  have honly : mentions s!"{nested} = Arr::only({source}, {Text.quotedList keys});" = [nested, x] := by
    simp [mentions, toString, hnested.leadsFrom.mentionedIn, hsource.mentionedIn, htaken.mentionedIn,
      mentionedIn, isNameChar]
  have hall : mentions s!"{data} = {source};" = [data, x] := by
    simp [mentions, toString, hdata.leadsFrom.mentionedIn, hsource.mentionedIn, mentionedIn, isNameChar]
  have hexcept : mentions s!"{data} = Arr::except({source}, {Text.quotedList (keys ++ more)});" =
      [data, x] := by
    simp [mentions, toString, hdata.leadsFrom.mentionedIn, hsource.mentionedIn,
      (mute_quotedList hkeys).mentionedIn, mentionedIn, isNameChar]
  rw [splitCode, allMentions_append, List.mem_append] at hv
  rcases hv with hv | hv
  · split at hv
    · simp at hv
    · rw [allMentions_line, honly] at hv
      rcases List.mem_pair.1 hv with hv | hv
      exacts [.inl hv, .inr (.inr hv)]
  · refine .inr ?_
    split at hv
    · rwa [allMentions_line, hall, List.mem_pair] at hv
    · rwa [allMentions_line, hexcept, List.mem_pair] at hv

theorem mem_mentions_syncCode {verb parent nested : String} {r : Relation} (hverb : Mute verb)
    (hparent : IsVariable parent) (hnested : IsVariable nested) (hname : Mute r.name)
    (hv : v ∈ allMentions (syncCode verb parent nested r)) : v = parent ∨ v = nested := by
  have hkey := mute_requestKey r
  rw [syncCode, allMentions_cons] at hv
  have hcomment : mentions s!"// {verb} {r.name}" = [] := by
    simp [mentions, toString, hverb.mentionedIn, hname.mentionedIn_self, mentionedIn]
  have hlist : allMentions [.braces s!"if (array_key_exists('{r.requestKey}', {nested}))"
      [.line s!"{parent}->{r.name}()->sync({nested}['{r.requestKey}'] ?? []);"]] =
        [nested, parent, nested] := by
    simp [mentions, toString, hparent.leadsFrom.mentionedIn, hnested.leadsFrom.mentionedIn,
      hname.mentionedIn, hkey.mentionedIn, mentionedIn, isNameChar]
  rw [allMentions_line, hcomment, List.nil_append, hlist] at hv
  simp only [List.mem_cons, List.not_mem_nil, or_false] at hv
  rcases hv with hv | hv | hv
  exacts [.inr hv, .inl hv, .inr hv]

theorem mem_mentions_persistCode {record accessor data : String} (hrecord : IsVariable record)
    (haccessor : LeadsFrom x accessor) (hdata : IsVariable data)
    (hv : v ∈ allMentions [persistCode record accessor data]) : v = record ∨ v = data ∨ v = x := by
  have hlist : allMentions [persistCode record accessor data] =
      [record, record, data, record, x, data] := by
    simp [persistCode, mentions, toString, hrecord.leadsFrom.mentionedIn, hdata.leadsFrom.mentionedIn,
      haccessor.mentionedIn, mentionedIn, isNameChar]
  simp only [hlist, List.mem_cons, List.not_mem_nil, or_false] at hv
  rcases hv with hv | hv | hv | hv | hv | hv
  exacts [.inl hv, .inl hv, .inr (.inl hv), .inl hv, .inr (.inr hv), .inr (.inl hv)]

theorem mem_mentions_purgeTree_of_forall {record path : String} {children : List NestedRelation}
    (hrecord : LeadsFrom x record) (hfields : ∀ field ∈ fields, Mute field.name)
    (hchildren : ∀ child ∈ children, ∀ v ∈ allMentions (purgeNodes record path [child]),
      v = x ∨ OfLevel path v)
    (hv : v ∈ allMentions (purgeTree fields record path children)) : v = x ∨ OfLevel path v := by
  rw [purgeTree, allMentions_append, List.mem_append, purgeNodes_eq_flatMap,
    allMentions_eq_flatMap (List.flatMap _ _), List.flatMap_assoc, List.mem_flatMap] at hv
  rcases hv with hv | ⟨child, hchild, hv⟩
  · exact .inl (Attachment.mem_mentions_purgeCode hrecord hfields hv)
  · rw [← allMentions_eq_flatMap] at hv
    exact hchildren child hchild v hv

/-- Deleting the files of nested records mentions the record and the variables of loops. -/
theorem mem_mentions_purgeNodes (n : NestedRelation) {record path : String}
    (hrecord : LeadsFrom x record) (hmute : ∀ m, Within [n] m → m.Mute) :
    ∀ v ∈ allMentions (purgeNodes record path [n]), v = x ∨ OfLevel path v := by
  induction n using NestedRelation.induction_children generalizing record path x with
  | h n ih =>
    have hn := hmute n (.root List.mem_cons_self)
    obtain ⟨parent, r, fields, children⟩ := n
    have hle := letters_le_pathName path r.requestKey
    have haccessor : LeadsFrom x s!"{record}->{r.name}" := hrecord.arrow hn.name
    have hbelow {record' x' v : String} (hrecord' : LeadsFrom x' record') (hv : v ∈ allMentions
        (purgeTree fields record' (pathName path r.requestKey) children)) :
        v = x' ∨ OfLevel path v := by
      refine (mem_mentions_purgeTree_of_forall hrecord' hn.fields (fun child hchild ↦ ?_) hv).imp_right
        (OfLevel.mono · hle)
      exact ih child hchild hrecord' fun m hm ↦ hmute m (hm.of_child hchild)
    intro v hv
    simp only [purgeNodes, List.append_nil] at hv
    split at hv
    · simp at hv
    · split at hv
      · have hitem := Role.isVariable (isName_pathName path r.requestKey) .item
        have hloop : OfLevel path (Role.item.variableOf (pathName path r.requestKey)) :=
          (Role.item.ofLevel _).mono hle
        rw [allMentions_braces, List.mem_append] at hv
        refine hv.elim (fun hv ↦ ?_) fun hv ↦ ?_
        · obtain hv | rfl := mem_mentions_foreach haccessor hitem hv
          · exact .inl hv
          · exact .inr hloop
        · obtain rfl | hv := hbelow hitem.leadsFrom hv
          · exact .inr hloop
          · exact .inr hv
      · rw [allMentions_braces, List.mem_append] at hv
        rcases hv with hv | hv
        · exact .inl (mem_mentions_if haccessor hv)
        · exact hbelow haccessor hv

theorem mem_mentions_staleCode {parent relation keep name : String} {children : List NestedRelation}
    (hparent : IsVariable parent) (hrelation : Mute relation) (hkeep : IsVariable keep)
    (hfields : ∀ field ∈ fields, Mute field.name) (hmute : ∀ m, Within children m → m.Mute)
    (hv : v ∈ allMentions (staleCode fields children s!"{parent}->{relation}" keep name)) :
    v = parent ∨ v = keep ∨ OfLevel name v := by
  have hlevel : OfLevel name ("$stale" ++ Name.studly name) := Role.stale.ofLevel name
  have hstale : IsVariable ("$stale" ++ Name.studly name) :=
    IsVariable.append ⟨"stale".toList, by decide, rfl⟩ (isName_studly name)
  simp only [staleCode] at hv
  generalize "$stale" ++ Name.studly name = stale at hlevel hstale hv
  have htree (hv : v ∈ allMentions (purgeTree fields stale s!"stale_{name}" children)) :
      v = stale ∨ OfLevel name v := by
    refine (mem_mentions_purgeTree_of_forall hstale.leadsFrom hfields (fun child hchild ↦ ?_)
      hv).imp_right fun hv ↦ (Own.stale hv).ofLevel
    exact mem_mentions_purgeNodes child hstale.leadsFrom fun m hm ↦
      hmute m (hm.mono (by simpa using hchild))
  rw [allMentions_append, List.mem_append] at hv
  rcases hv with hv | hv
  · split at hv
    · rw [allMentions_braces, List.mem_append] at hv
      rcases hv with hv | hv
      · have hv : v = parent ∨ v = keep ∨ v = stale := by
          simpa [mentions, toString, hparent.leadsFrom.mentionedIn, hrelation.mentionedIn,
            hkeep.leadsFrom.mentionedIn, hstale.leadsFrom.mentionedIn, mentionedIn, isNameChar] using hv
        obtain hv | hv | rfl := hv
        exacts [.inl hv, .inr (.inl hv), .inr (.inr hlevel)]
      · obtain rfl | hv := htree hv
        exacts [.inr (.inr hlevel), .inr (.inr hv)]
    · simp at hv
  · have hv : v = parent ∨ v = keep := by
      simpa [mentions, toString, hparent.leadsFrom.mentionedIn, hrelation.mentionedIn,
        hkeep.leadsFrom.mentionedIn, mentionedIn, isNameChar] using hv
    exact hv.imp_right .inl

end Code

end Scaffold
