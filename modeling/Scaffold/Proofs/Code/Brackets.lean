import Mathlib
import Scaffold.Proofs.Code.Fresh
import Scaffold.Proofs.Code.Mentions

/-!
# The brackets of generated code

A reader of brackets keeps the closing brackets that it waits for, the innermost first: an opening
bracket adds its partner, a closing bracket has to be the one that is waited for first. Every
statement that is generated leaves the reader as it found it (`Stmt.Closed`), whatever is nested in
it, as long as no name of a field or a relation brings brackets of its own.
-/

namespace Scaffold

/-! ## Reading brackets -/

namespace Text

/-- The bracket that closes what the character opens. -/
@[simp] def closer? (c : Char) : Option Char :=
  if c = '(' then some ')'
  else if c = '[' then some ']'
  else if c = '\x7b' then some '\x7d'
  else none

@[simp] def closers : List Char := [')', ']', '\x7d']

@[simp] def brackets : List Char := ['(', '[', '\x7b'] ++ closers

/-- Reads the brackets of a text while the closing brackets `waiting` are waited for; gives those that
are waited for afterwards. -/
@[simp] def readBrackets (waiting : List Char) : List Char → Option (List Char)
  | [] => some waiting
  | c :: rest =>
    match closer? c with
    | some close => readBrackets (close :: waiting) rest
    | none =>
      if c ∈ closers then
        if waiting.head? = some c then readBrackets waiting.tail rest else none
      else readBrackets waiting rest

/-- Reads the brackets of lines in order. -/
def readLines (waiting : List Char) (lines : List String) : Option (List Char) :=
  lines.foldlM (fun waiting line ↦ readBrackets waiting line.toList) waiting

example : readLines [] ["if (isset($data['tags'])) \x7b", "\x7d"] = some [] := by decide

example : readLines [] ["if (isset($data['tags')]) \x7b", "\x7d"] = none := by decide

variable {waiting : List Char} {s t : String}

theorem readBrackets_append_of_forall {l : List Char} (h : ∀ b ∈ brackets, b ∉ l) (rest : List Char) :
    readBrackets waiting (l ++ rest) = readBrackets waiting rest := by
  induction l with
  | nil => rfl
  | cons c more ih =>
    have hne : ∀ b ∈ brackets, c ≠ b := fun b hb heq ↦ h b hb (heq ▸ List.mem_cons_self)
    have hskip : readBrackets waiting (c :: (more ++ rest)) = readBrackets waiting (more ++ rest) := by
      simp only [brackets, closers, List.forall_mem_append, List.forall_mem_cons] at hne
      simp [hne]
    rw [List.cons_append, hskip, ih fun b hb hmem ↦ h b hb (List.mem_cons_of_mem _ hmem)]

/-- A text without brackets. -/
def Bracketless (s : String) : Prop := ∀ b ∈ brackets, b ∉ s.toList

instance (s : String) : Decidable (Bracketless s) := List.decidableBAll (· ∉ s.toList) brackets

/-- A text whose brackets come in pairs, so that they leave the reader as it was. -/
def Paired (s : String) : Prop :=
  ∀ waiting rest, readBrackets waiting (s.toList ++ rest) = readBrackets waiting rest

theorem Paired.read (h : Paired s) (waiting rest : List Char) :
    readBrackets waiting (s.toList ++ rest) = readBrackets waiting rest := h waiting rest

theorem Paired.read_self (h : Paired s) (waiting : List Char) :
    readBrackets waiting s.toList = some waiting := by
  simpa [readBrackets] using h waiting []

theorem Paired.append (hs : Paired s) (ht : Paired t) : Paired (s ++ t) := by
  intro waiting rest
  rw [String.toList_append, List.append_assoc, hs.read, ht.read]

theorem Bracketless.paired (h : Bracketless s) : Paired s :=
  fun _ rest ↦ readBrackets_append_of_forall h rest

theorem Bracketless.append (hs : Bracketless s) (ht : Bracketless t) : Bracketless (s ++ t) := by
  intro b hb
  rw [String.toList_append, List.mem_append, not_or]
  exact ⟨hs b hb, ht b hb⟩

theorem bracketless_of_isNameChar (h : ∀ c ∈ s.toList, Stmt.isNameChar c = true) :
    Bracketless s := by
  have hnone : ∀ b ∈ brackets, Stmt.isNameChar b = false := by
    simp [brackets, closers, Stmt.isNameChar]
  intro b hb hmem
  exact absurd (h b hmem) (by simp [hnone b hb])

theorem bracketless_quoted (h : Bracketless s) : Bracketless (quoted s) := by
  have hplain : ∀ b ∈ brackets, b ≠ '\\' ∧ b ≠ '\'' := by simp
  exact fun b hb ↦ not_mem_quoted (hplain b hb).1 (hplain b hb).2 (h b hb)

theorem bracketless_list {texts : List String} (h : ∀ t ∈ texts, Bracketless t) :
    Bracketless (", ".intercalate texts) := by
  have hsep : Bracketless ", " := by decide
  exact fun b hb ↦ not_mem_intercalate (hsep b hb) fun t ht ↦ h t ht b hb

theorem paired_quotedList {texts : List String} (h : ∀ t ∈ texts, Bracketless t) :
    Paired (quotedList texts) := by
  have hlist : Paired (", ".intercalate (texts.map quoted)) :=
    (bracketless_list (List.forall_mem_map.2 fun t ht ↦ bracketless_quoted (h t ht))).paired
  unfold quotedList
  generalize ", ".intercalate (texts.map quoted) = list at hlist
  intro waiting rest
  simp [hlist.read]

theorem bracketless_spaces (width : Nat) : Bracketless (spaces width) := by
  have hspace : ∀ b ∈ brackets, b ≠ ' ' := by simp
  intro b hb hmem
  rw [spaces, String.toList_ofList] at hmem
  exact hspace b hb (List.eq_of_mem_replicate hmem)

/-! ## Lines -/

theorem readLines_append (lines more : List String) :
    readLines waiting (lines ++ more) = (readLines waiting lines).bind (readLines · more) :=
  List.foldlM_append

theorem readLines_cons (line : String) (rest : List String) :
    readLines waiting (line :: rest) =
      (readBrackets waiting line.toList).bind (readLines · rest) := rfl

/-- Indentation has no brackets. -/
theorem readLines_indentBy (width : Nat) (lines : List String) :
    readLines waiting (indentBy width lines) = readLines waiting lines := by
  rw [indentBy, readLines, readLines, List.foldlM_map]
  congr 1
  ext waiting line
  split
  · rfl
  · rw [String.toList_append, (bracketless_spaces width).paired.read]

end Text

namespace Stmt

open Text

variable {text head close : String} {body code more : List Stmt}

theorem IsName.bracketless {s : String} (h : IsName s) : Bracketless s :=
  bracketless_of_isNameChar (List.all_eq_true.1 h)

theorem IsVariable.paired {x : String} (h : IsVariable x) : Paired x := by
  obtain ⟨name, hname, hx⟩ := h
  have hrest : IsName (String.ofList name) := by rwa [IsName, String.toList_ofList]
  have hsplit : x = "$" ++ String.ofList name := String.toList_injective (by simp [hx])
  rw [hsplit]
  exact (Bracketless.append (by decide) hrest.bracketless).paired

/-! ## Closed code -/

/-- Reading the lines of the code in order leaves the reader as it was. -/
def Closed (code : List Stmt) : Prop :=
  ∀ waiting, readLines waiting (allLines code) = some waiting

theorem closed_nil : Closed [] := fun _ ↦ rfl

theorem Closed.append (h : Closed code) (h' : Closed more) : Closed (code ++ more) := by
  intro waiting
  rw [allLines_append, readLines_append, h waiting, Option.bind_some, h' waiting]

theorem Closed.cons {s : Stmt} (h : Closed [s]) (h' : Closed code) : Closed (s :: code) :=
  h.append h'

theorem closed_flatMap {α : Type} {l : List α} {f : α → List Stmt} (h : ∀ x ∈ l, Closed (f x)) :
    Closed (l.flatMap f) := by
  induction l with
  | nil => exact closed_nil
  | cons x rest ih =>
    rw [List.forall_mem_cons] at h
    exact h.1.append (ih h.2)

theorem closed_map {α : Type} {l : List α} {f : α → Stmt} (h : ∀ x ∈ l, Closed [f x]) :
    Closed (l.map f) := by
  rw [List.map_eq_flatMap]
  exact closed_flatMap h

theorem closed_line (h : Paired text) : Closed [line text] := by
  intro waiting
  simp [allLines, lines, readLines, h.read_self]

theorem closed_gap : Closed [gap] := fun _ ↦ rfl

/-- Blank lines between groups do not count. -/
theorem closed_spaced {groups : List (List Stmt)} (h : ∀ group ∈ groups, Closed group) :
    Closed (spaced groups) := by
  have hkept : ∀ group ∈ groups.filter (!·.isEmpty), Closed group :=
    fun group hgroup ↦ h group (List.mem_of_mem_filter hgroup)
  rw [spaced]
  generalize groups.filter (!·.isEmpty) = kept at hkept
  induction kept with
  | nil => exact closed_nil
  | cons group rest ih =>
    rw [List.forall_mem_cons] at hkept
    cases rest with
    | nil => simpa using hkept.1
    | cons next more =>
      rw [List.intercalate_cons_cons]
      exact (hkept.1.append closed_gap).append (ih hkept.2)

/-- The end of a block closes what its head opens. -/
theorem closed_block (inner : List Char) (hbody : Closed body)
    (hhead : ∀ waiting, readBrackets waiting head.toList = some (inner ++ waiting))
    (hclose : ∀ waiting, readBrackets (inner ++ waiting) close.toList = some waiting) :
    Closed [block head body close] := by
  intro waiting
  simp only [allLines, lines, List.append_nil, List.cons_append, readLines_cons, readLines_append,
    readLines_indentBy, hhead, hbody (inner ++ waiting), Option.bind_some, hclose]
  rfl

theorem closed_braces (hbody : Closed body) (hhead : Paired head) : Closed [braces head body] := by
  refine closed_block ['\x7d'] hbody (fun waiting ↦ ?_) fun waiting ↦ ?_
  · simp [hhead.read]
  · simp

theorem closed_choice {yes no : List Stmt} (hyes : Closed yes) (hno : Closed no)
    (hhead : ∀ waiting, readBrackets waiting head.toList = some ('\x7d' :: waiting)) :
    Closed [choice head yes no] := by
  intro waiting
  have helse : readBrackets ('\x7d' :: waiting) "\x7d else \x7b".toList = some ('\x7d' :: waiting) := by
    simp
  have hclose : readBrackets ('\x7d' :: waiting) "\x7d".toList = some waiting := by
    simp
  simp only [allLines, lines, List.append_nil, List.cons_append, List.nil_append, List.append_assoc,
    readLines_cons, readLines_append, readLines_indentBy, hhead, hyes ('\x7d' :: waiting),
    helse, hno ('\x7d' :: waiting), hclose, Option.bind_some]
  rfl

end Stmt

open Text Stmt

variable {fields : List Field}

/-! ## Expressions -/

theorem paired_index {x key : String} (hx : Paired x) (hkey : Bracketless key) :
    Paired s!"{x}['{key}']" := by
  intro waiting rest
  simp [toString, hx.read, hkey.paired.read]

theorem paired_arrow {x name : String} (hx : Paired x) (hname : Bracketless name) :
    Paired s!"{x}->{name}" := by
  intro waiting rest
  simp [toString, hx.read, hname.paired.read]

theorem paired_foreach {x item : String} (hx : Paired x) (hitem : Paired item) :
    Paired s!"foreach ({x} as {item})" := by
  intro waiting rest
  simp [toString, hx.read, hitem.read]

/-- The head of a loop over items that may be missing. -/
theorem paired_foreach_given {x item : String} (hx : Paired x) (hitem : Paired item) :
    Paired s!"foreach ({x} ?? [] as {item})" := by
  intro waiting rest
  simp [toString, hx.read, hitem.read]

/-- The test whether there is a payload. -/
theorem paired_if_given {x : String} (hx : Paired x) : Paired s!"if (!empty({x}))" := by
  intro waiting rest
  simp [toString, hx.read]

theorem paired_if {x : String} (hx : Paired x) : Paired s!"if ({x})" := by
  intro waiting rest
  simp [toString, hx.read]

/-! ## Code for files -/

theorem bracketless_requestKey (r : Relation) : Bracketless r.requestKey :=
  bracketless_of_isNameChar isNameChar_of_mem_snake

namespace Attachment

variable {data slug record path : String}

theorem bracketless_folder (entity : String) : Bracketless (folder entity) :=
  bracketless_of_isNameChar isNameChar_of_mem_snake

theorem bracketless_of_mem_nameColumns : ∀ column ∈ nameColumns, Bracketless column := by
  simp [nameColumns, Bracketless]

theorem paired_nameSource (hdata : Paired data) (hfields : ∀ field ∈ fields, Bracketless field.name)
    {fallback : Option String} (hfallback : ∀ e ∈ fallback, Paired e) :
    Paired (nameSource fields data fallback) := by
  intro waiting rest
  rw [nameSource]
  split
  · simp
  · next f hf =>
    have hf : Bracketless f := of_nameField? bracketless_of_mem_nameColumns hfields hf
    cases fallback with
    | none => simp [toString, hdata.read, hf.paired.read]
    | some e =>
      have he := hfallback e rfl
      simp [toString, hdata.read, hf.paired.read, he.read]

theorem closed_nameCode (hslug : Paired slug) (hdata : Paired data)
    (hfields : ∀ field ∈ fields, Bracketless field.name) {fallback : Option String}
    (hfallback : ∀ e ∈ fallback, Paired e) : Closed (nameCode fields data slug fallback) := by
  have hsource := paired_nameSource hdata hfields hfallback
  rw [nameCode]
  split
  · exact closed_nil
  · refine (closed_line fun w rest ↦ ?_).cons ((closed_braces (closed_line fun w rest ↦ ?_)
      fun w rest ↦ ?_).cons (closed_line fun w rest ↦ ?_))
    · simp [toString, hslug.read, hsource.read]
    · simp [toString, hslug.read]
    · simp [toString, hslug.read]
    · simp [toString, hslug.read]

theorem closed_uploadCode (hdata : Paired data) (hslug : Paired slug)
    (hfields : ∀ field ∈ fields, Bracketless field.name) (entity : String) :
    Closed (uploadCode fields entity data slug) := by
  apply closed_map
  intro f hf
  have hf : Bracketless f := of_mem_attachments hfields hf
  have hfolder := (bracketless_folder entity).paired
  refine closed_braces (closed_line fun waiting rest ↦ ?_) fun waiting rest ↦ ?_
  · simp [toString, hdata.read, hfolder.read, hslug.read, hf.paired.read]
  · simp [toString, hdata.read, hf.paired.read]

theorem paired_oldVariable (path field : String) : Paired (oldVariable path field) :=
  (isVariable_oldVariable path field).paired

theorem closed_captureCode (hrecord : Paired record)
    (hfields : ∀ field ∈ fields, Bracketless field.name) : Closed (captureCode fields record path) := by
  apply closed_map
  intro f hf
  have hf : Bracketless f := of_mem_attachments hfields hf
  apply closed_line
  intro waiting rest
  simp [toString, (paired_oldVariable path f).read, hrecord.read, hf.paired.read]

theorem closed_releaseCode (hdata : Paired data)
    (hfields : ∀ field ∈ fields, Bracketless field.name) : Closed (releaseCode fields data path) := by
  apply closed_map
  intro f hf
  have hf : Bracketless f := of_mem_attachments hfields hf
  have hold := paired_oldVariable path f
  refine closed_braces (closed_line fun waiting rest ↦ ?_) fun waiting rest ↦ ?_
  · simp [toString, hold.read]
  · simp [toString, hdata.read, hf.paired.read, hold.read]

theorem closed_purgeCode (hrecord : Paired record)
    (hfields : ∀ field ∈ fields, Bracketless field.name) : Closed (purgeCode fields record) := by
  apply closed_map
  intro f hf
  have hf : Bracketless f := of_mem_attachments hfields hf
  refine closed_braces (closed_line fun waiting rest ↦ ?_) fun waiting rest ↦ ?_
  · simp [toString, hrecord.read, hf.paired.read]
  · simp [toString, hrecord.read, hf.paired.read]

end Attachment

/-! ## Code for nested requests -/

/-- No name in the nested request has brackets. -/
structure NestedRelation.Bracketless (n : NestedRelation) : Prop where
  name : Text.Bracketless n.relation.name
  fields : ∀ field ∈ n.fields, Text.Bracketless field.name

/-- No name of a field, a relation or an eager load has brackets. -/
structure Configuration.Bracketless (c : Configuration) : Prop where
  loads : ∀ name ∈ c.eagerLoads, Text.Bracketless name
  fields : ∀ field ∈ c.fields, Text.Bracketless field.name
  nodes : ∀ n, NestedRelation.Within c.nested n → n.Bracketless

namespace Code

open NestedRelation (Within)

variable {source parent nested data record accessor name path : String} {keys more : List String}
  {children : List NestedRelation} {n : NestedRelation}

theorem closed_splitCode (hsource : Paired source) (hnested : Paired nested) (hdata : Paired data)
    (hkeys : ∀ key ∈ keys ++ more, Text.Bracketless key) :
    Closed (splitCode source keys nested data more) := by
  have htaken := paired_quotedList fun key hkey ↦ hkeys key (List.mem_append_left _ hkey)
  have hleft := paired_quotedList hkeys
  rw [splitCode]
  refine Closed.append ?_ ?_
  · split
    · exact closed_nil
    · refine closed_line fun waiting rest ↦ ?_
      simp [toString, hnested.read, hsource.read, htaken.read]
  · split
    · refine closed_line fun waiting rest ↦ ?_
      simp [toString, hdata.read, hsource.read]
    · refine closed_line fun waiting rest ↦ ?_
      simp [toString, hdata.read, hsource.read, hleft.read]

theorem closed_comment {start name : String} (hstart : Text.Bracketless start)
    (hname : Text.Bracketless name) : Closed [line (start ++ name)] :=
  closed_line (hstart.append hname).paired

theorem closed_syncCode {verb : String} {r : Relation} (hverb : Text.Bracketless verb)
    (hparent : Paired parent) (hnested : Paired nested) (hname : Text.Bracketless r.name) :
    Closed (syncCode verb parent nested r) := by
  have hkey := (bracketless_requestKey r).paired
  refine (closed_line fun waiting rest ↦ ?_).cons (closed_braces (closed_line fun waiting rest ↦ ?_)
    fun waiting rest ↦ ?_)
  · simp [toString, hverb.paired.read, hname.paired.read]
  · simp [toString, hparent.read, hname.paired.read, hnested.read, hkey.read]
  · simp [toString, hnested.read, hkey.read]

theorem closed_persistCode (hrecord : Paired record) (haccessor : Paired accessor)
    (hdata : Paired data) : Closed [persistCode record accessor data] := by
  refine closed_choice (closed_line fun waiting rest ↦ ?_) (closed_line fun waiting rest ↦ ?_)
    fun waiting ↦ ?_
  · simp [toString, hrecord.read, hdata.read]
  · simp [toString, hrecord.read, haccessor.read, hdata.read]
  · simp [toString, hrecord.read]

theorem closed_purgeTree (hrecord : Paired record)
    (hfields : ∀ field ∈ fields, Text.Bracketless field.name)
    (hchildren : ∀ child ∈ children, Closed (purgeNodes record path [child])) :
    Closed (purgeTree fields record path children) := by
  rw [purgeTree, purgeNodes_eq_flatMap]
  exact (Attachment.closed_purgeCode hrecord hfields).append (closed_flatMap hchildren)

theorem closed_purgeNodes (n : NestedRelation) (hrecord : Paired record)
    (hn : ∀ m, Within [n] m → m.Bracketless) : Closed (purgeNodes record path [n]) := by
  induction n using NestedRelation.induction_children generalizing record path with
  | h n ih =>
    have hnames := hn n (.root List.mem_cons_self)
    obtain ⟨parent, r, fields, children⟩ := n
    have haccessor : Paired s!"{record}->{r.name}" := paired_arrow hrecord hnames.name
    have hitem : Paired (Role.item.variableOf (pathName path r.requestKey)) :=
      (Role.isVariable (isName_pathName path r.requestKey) .item).paired
    have hbelow {record' : String} (hrecord' : Paired record') :
        Closed (purgeTree fields record' (pathName path r.requestKey) children) :=
      closed_purgeTree hrecord' hnames.fields fun child hchild ↦
        ih child hchild hrecord' fun m hm ↦ hn m (hm.of_child hchild)
    simp only [purgeNodes, List.append_nil]
    split
    · exact closed_nil
    · split
      · exact closed_braces (hbelow hitem) (paired_foreach haccessor hitem)
      · exact closed_braces (hbelow haccessor) (paired_if haccessor)

theorem closed_staleCode {keep : String} (haccessor : Paired accessor) (hkeep : Paired keep)
    (hfields : ∀ field ∈ fields, Text.Bracketless field.name)
    (hchildren : ∀ m, Within children m → m.Bracketless) :
    Closed (staleCode fields children accessor keep name) := by
  have hstale : Paired ("$stale" ++ Name.studly name) :=
    (IsVariable.append ⟨"stale".toList, by decide, rfl⟩ (isName_studly name)).paired
  simp only [staleCode]
  generalize "$stale" ++ Name.studly name = stale at hstale
  have htree : Closed (purgeTree fields stale s!"stale_{name}" children) :=
    closed_purgeTree hstale hfields fun child hchild ↦ closed_purgeNodes child hstale fun m hm ↦
      hchildren m (hm.mono (by simpa using hchild))
  refine Closed.append ?_ (closed_line fun waiting rest ↦ ?_)
  · split
    · refine closed_braces htree fun waiting rest ↦ ?_
      simp [toString, haccessor.read, hkeep.read, hstale.read]
    · exact closed_nil
  · simp [toString, haccessor.read, hkeep.read]

theorem bracketless_of_mem_payloadKeys {nodes : List NestedRelation} :
    ∀ key ∈ payloadKeys nodes, Text.Bracketless key :=
  List.forall_mem_map.2 fun n _ ↦ bracketless_requestKey n.relation

theorem closed_storeLevel (hname : IsName name) (hparent : Paired parent) {payload : String}
    (hpayload : Paired payload) (hn : n.Bracketless)
    (hchildren : ∀ child ∈ n.children, Closed (Writer.store.below name child)) :
    Closed (storeLevel parent name payload n) := by
  have hrole (role : Role) : Paired (role.variableOf name) := (role.isVariable hname).paired
  apply closed_spaced
  simp only [List.forall_mem_cons, List.not_mem_nil, false_imp_iff, implies_true, and_true]
  refine ⟨?_, ?_, closed_line fun waiting rest ↦ ?_, closed_spaced (List.forall_mem_map.2 hchildren)⟩
  · exact closed_splitCode hpayload (hrole .nested) (hrole .data)
      (by simpa using bracketless_of_mem_payloadKeys)
  · exact (Attachment.closed_nameCode (hrole .imageName) (hrole .data) hn.fields (by simp)).append
      (Attachment.closed_uploadCode (hrole .data) (hrole .imageName) hn.fields _)
  · simp [toString, (hrole .created).read, hparent.read, hn.name.paired.read, (hrole .data).read]

theorem closed_storeNode (hparent : Paired parent) (hnested : Paired nested) (hn : n.Bracketless)
    (hchildren : ∀ child ∈ n.children,
      Closed (Writer.store.below (pathName path n.relation.requestKey) child)) :
    Closed (storeNode parent nested path n) := by
  have hname := isName_pathName path n.relation.requestKey
  have hitem := (Role.isVariable hname .item).paired
  have hsource := paired_index hnested (bracketless_requestKey n.relation)
  by_cases hkind : n.relation.kind = .belongsToMany
  · rw [storeNode_of_belongsToMany hkind]
    exact closed_syncCode (by decide) hparent hnested hn.name
  · rw [storeNode_eq hkind]
    refine (closed_comment (by decide) hn.name).cons ?_
    split
    · exact closed_braces (closed_storeLevel hname hparent hitem hn hchildren)
        (paired_foreach_given hsource hitem)
    · exact closed_braces (closed_storeLevel hname hparent hsource hn hchildren)
        (paired_if_given hsource)

theorem closed_updateLevel (hname : IsName name) (hparent : Paired parent) {payload find : String}
    (hpayload : Paired payload) (hfind : Paired find) {kept : List Stmt} (hkept : Closed kept)
    (hn : n.Bracketless) (hchildren : ∀ child ∈ n.children, Closed (Writer.update.below name child)) :
    Closed (updateLevel parent name payload find kept n) := by
  have hrole (role : Role) : Paired (role.variableOf name) := (role.isVariable hname).paired
  have hrecord : Paired (Role.record.variableOf name ++ "?") :=
    Text.Paired.append (hrole .record) (Bracketless.paired (by decide))
  apply closed_spaced
  simp only [List.forall_mem_cons, List.not_mem_nil, false_imp_iff, implies_true, and_true]
  refine ⟨?_, ?_, ?_, hkept, closed_spaced (List.forall_mem_map.2 hchildren)⟩
  · refine Closed.append (Closed.append ?_ (closed_line hfind))
      (Attachment.closed_captureCode hrecord hn.fields)
    refine closed_splitCode hpayload (hrole .nested) (hrole .data) ?_
    rw [List.forall_mem_append]
    exact ⟨bracketless_of_mem_payloadKeys, by simp [Text.Bracketless]⟩
  · exact (Attachment.closed_nameCode (hrole .imageName) (hrole .data) hn.fields
      (by simpa using hrecord)).append
      (Attachment.closed_uploadCode (hrole .data) (hrole .imageName) hn.fields _)
  · exact (closed_persistCode (hrole .record) (paired_arrow hparent hn.name) (hrole .data)).cons
      (Attachment.closed_releaseCode (hrole .data) hn.fields)

theorem paired_find {item : String} (hrecord : Paired record) (hitem : Paired item)
    (haccessor : Paired accessor) :
    Paired s!"{record} = isset({item}['id']) ? {accessor}()->find({item}['id']) : null;" := by
  intro waiting rest
  simp [toString, hrecord.read, hitem.read, haccessor.read]

theorem closed_updateNode (hparent : Paired parent) (hnested : Paired nested)
    (hn : ∀ m, Within [n] m → m.Bracketless)
    (hchildren : ∀ child ∈ n.children,
      Closed (Writer.update.below (pathName path n.relation.requestKey) child)) :
    Closed (updateNode parent nested path n) := by
  have hnames := hn n (.root List.mem_cons_self)
  have hname := isName_pathName path n.relation.requestKey
  have hkey := bracketless_requestKey n.relation
  have hitem := (Role.isVariable hname .item).paired
  have hkeep := (Role.isVariable hname .keep).paired
  have hrecord := (Role.isVariable hname .record).paired
  have hsource := paired_index hnested hkey
  have haccessor := paired_arrow hparent hnames.name
  have hcomment : Closed [line s!"// Sync {n.relation.name}"] :=
    closed_comment (by decide) hnames.name
  by_cases hkind : n.relation.kind = .belongsToMany
  · rw [updateNode_of_belongsToMany hkind]
    exact closed_syncCode (by decide) hparent hnested hnames.name
  · by_cases hmany : n.relation.kind = .hasMany
    · rw [updateNode_of_hasMany hmany]
      refine hcomment.cons (closed_braces (closed_spaced ?_) fun waiting rest ↦ ?_)
      · simp only [List.forall_mem_cons, List.not_mem_nil, false_imp_iff, implies_true, and_true]
        refine ⟨closed_line fun waiting rest ↦ ?_, closed_braces (closed_updateLevel hname hparent hitem
          (paired_find hrecord hitem haccessor) (closed_line fun waiting rest ↦ ?_) hnames hchildren)
          (paired_foreach_given hsource hitem), ?_⟩
        · simp [toString, hkeep.read]
        · simp [toString, hkeep.read, hrecord.read]
        · exact closed_staleCode haccessor hkeep hnames.fields fun m hm ↦
            hn m (.of_children (List.mem_singleton_self n) hm)
      · simp [toString, hkey.paired.read, hnested.read]
    · rw [updateNode_of_single hkind hmany]
      refine hcomment.cons (closed_braces (closed_updateLevel hname hparent hsource
        (fun waiting rest ↦ ?_) closed_nil hnames hchildren) (paired_if_given hsource))
      simp [toString, hrecord.read, hparent.read, hnames.name.paired.read]

theorem Writer.closed_node (w : Writer) (n : NestedRelation) (hparent : Paired parent)
    (hnested : Paired nested) (hn : ∀ m, Within [n] m → m.Bracketless) :
    Closed (w.node parent nested path n) := by
  induction n using NestedRelation.induction_children generalizing parent nested path with
  | h n ih =>
    have hname := isName_pathName path n.relation.requestKey
    have hbelow : ∀ child ∈ n.children, Closed (w.below (pathName path n.relation.requestKey) child) :=
      fun child hchild ↦ ih child hchild (w.parent.isVariable hname).paired
        (Role.isVariable hname .nested).paired fun m hm ↦ hn m (hm.of_child hchild)
    cases w with
    | store => exact closed_storeNode hparent hnested (hn n (.root List.mem_cons_self)) hbelow
    | update => exact closed_updateNode hparent hnested hn hbelow

/-! ## Bodies of methods -/

variable {c : Configuration}

theorem paired_eagerList (hc : c.Bracketless) : Paired (eagerList c) := by
  refine (bracketless_list (List.forall_mem_map.2 fun name hname ↦ ?_)).paired
  have hquote : Text.Bracketless "'" := by simp [Text.Bracketless]
  exact (hquote.append (hc.loads name hname)).append hquote

theorem closed_returnCode (hc : c.Bracketless) : Closed [returnCode c] := by
  have hrecord := (isVariable_recordVariable c).paired
  have hloads := paired_eagerList hc
  simp only [returnCode]
  split <;> apply closed_line <;> intro waiting rest
  · simp [toString, hrecord.read, hloads.read]
  · simp [toString, hrecord.read]

theorem closed_primarySplit (c : Configuration) : Closed (primarySplit c) := by
  have hdata : Paired "$data" := Bracketless.paired (by decide)
  have hnested : Paired "$nested" := Bracketless.paired (by decide)
  rw [primarySplit]
  split
  · exact closed_splitCode hdata hnested hdata (by simpa using bracketless_of_mem_payloadKeys)
  · exact closed_nil

/-- The end of a transaction closes its closure and the call that gets it. -/
theorem closed_transaction {head : String} {body : List Stmt} (hbody : Closed body)
    (hhead : ∀ waiting, readBrackets waiting head.toList = some ('\x7d' :: ')' :: waiting)) :
    Closed [.block head body "\x7d);"] :=
  closed_block ['\x7d', ')'] hbody hhead fun waiting ↦ by simp

theorem closed_relations (w : Writer) (hc : c.Bracketless) :
    Closed (spaced (c.nested.map (w.node (recordVariable c) "$nested" ""))) := by
  have hnested : Paired "$nested" := Bracketless.paired (by decide)
  refine closed_spaced (List.forall_mem_map.2 fun n hn ↦ ?_)
  exact w.closed_node n (isVariable_recordVariable c).paired hnested fun m hm ↦
    hc.nodes m (hm.mono (by simpa using hn))

theorem closed_storeBody (hc : c.Bracketless) (hstudly : Text.Bracketless c.studly) :
    Closed (storeBody c) := by
  have hrecord := (isVariable_recordVariable c).paired
  have hdata : Paired "$data" := Bracketless.paired (by decide)
  have hslug : Paired "$imageName" := Bracketless.paired (by decide)
  have htransaction : Closed (storeTransaction c) := by
    apply closed_spaced
    simp only [List.forall_mem_cons, List.not_mem_nil, false_imp_iff, implies_true, and_true]
    refine ⟨?_, closed_line fun waiting rest ↦ ?_, ?_, closed_returnCode hc⟩
    · exact (Attachment.closed_nameCode hslug hdata hc.fields (by simp)).append
        (Attachment.closed_uploadCode hdata hslug hc.fields _)
    · simp [toString, hrecord.read, hstudly.paired.read]
    · rw [storeRelations, storeNodes_eq_map]
      exact closed_relations .store hc
  have huses : Paired (if c.hasNested then "$data, $nested" else "$data") :=
    Bracketless.paired (by split <;> simp [Text.Bracketless])
  apply closed_spaced
  simp only [List.forall_mem_cons, List.not_mem_nil, false_imp_iff, implies_true, and_true]
  refine ⟨closed_primarySplit c, closed_transaction htransaction fun waiting ↦ ?_⟩
  simp [toString, huses.read]

theorem closed_updateBody (hc : c.Bracketless) : Closed (updateBody c) := by
  have hrecord := (isVariable_recordVariable c).paired
  have hdata : Paired "$data" := Bracketless.paired (by decide)
  have hslug : Paired "$imageName" := Bracketless.paired (by decide)
  have htransaction : Closed (updateTransaction c) := by
    apply closed_spaced
    simp only [List.forall_mem_cons, List.not_mem_nil, false_imp_iff, implies_true, and_true]
    refine ⟨Attachment.closed_captureCode hrecord hc.fields, ?_, Closed.cons
      (closed_line fun waiting rest ↦ ?_) (Attachment.closed_releaseCode hdata hc.fields), ?_,
      closed_returnCode hc⟩
    · exact (Attachment.closed_nameCode hslug hdata hc.fields (by simpa using hrecord)).append
        (Attachment.closed_uploadCode hdata hslug hc.fields _)
    · simp [toString, hrecord.read]
    · rw [updateRelations, updateNodes_eq_map]
      exact closed_relations .update hc
  have huses : Paired (if c.hasNested then recordVariable c ++ ", $data, $nested"
      else recordVariable c ++ ", $data") := by
    intro waiting rest
    split <;> simp [hrecord.read]
  apply closed_spaced
  simp only [List.forall_mem_cons, List.not_mem_nil, false_imp_iff, implies_true, and_true]
  refine ⟨closed_primarySplit c, closed_transaction htransaction fun waiting ↦ ?_⟩
  simp [toString, huses.read]

theorem closed_destroyBody (hc : c.Bracketless) : Closed (destroyBody c) := by
  have hrecord := (isVariable_recordVariable c).paired
  have htransaction : Closed (destroyTransaction c) := by
    apply closed_spaced
    simp only [List.forall_mem_cons, List.not_mem_nil, false_imp_iff, implies_true, and_true]
    refine ⟨closed_purgeTree hrecord hc.fields fun n hn ↦ closed_purgeNodes n hrecord fun m hm ↦
      hc.nodes m (hm.mono (by simpa using hn)), closed_line fun waiting rest ↦ ?_⟩
    simp [toString, hrecord.read]
  refine closed_transaction htransaction fun waiting ↦ ?_
  simp [toString, hrecord.read]

/-- The brackets of every generated body are nested properly, and none is open at its end. The name in
studly case is that of every configuration which is built. -/
theorem readLines_bodies (hc : c.Bracketless) (hstudly : c.studly = Name.studly c.originalName) :
    ∀ body ∈ [storeBody c, updateBody c, destroyBody c], readLines [] (allLines body) = some [] := by
  have hname : Text.Bracketless c.studly := hstudly ▸ (isName_studly _).bracketless
  simp only [List.forall_mem_cons, List.not_mem_nil, false_imp_iff, implies_true, and_true]
  exact ⟨closed_storeBody hc hname [], closed_updateBody hc [], closed_destroyBody hc []⟩

/-- Authors with portraits and tags, whose books have covers. -/
def pictured : Configuration where
  originalName := "author"
  studly := "Author"
  fields := [⟨"portrait", "image", "image", none, []⟩]
  relations := []
  nested :=
    [⟨"Author", ⟨"books", .hasMany, "Book"⟩, [⟨"cover", "image", "image", none, []⟩],
        [nestedChapters]⟩,
      ⟨"Author", ⟨"tags", .belongsToMany, "Tag"⟩, [], []⟩]
  toggles := .default
  eagerLoads := ["books.chapters", "tags"]
  unique := []

theorem readLines_pictured :
    pictured.Bracketless ∧ pictured.studly = Name.studly pictured.originalName ∧
      ∀ body ∈ [storeBody pictured, updateBody pictured, destroyBody pictured],
        readLines [] (allLines body) = some [] := by
  have hnodes : ∀ n, Within pictured.nested n → Text.Bracketless n.relation.name ∧
      ∀ field ∈ n.fields, Text.Bracketless field.name := by decide
  have hc : pictured.Bracketless :=
    ⟨by decide, by decide, fun n hn ↦ ⟨(hnodes n hn).1, (hnodes n hn).2⟩⟩
  have hstudly : pictured.studly = Name.studly pictured.originalName := by decide
  exact ⟨hc, hstudly, readLines_bodies hc hstudly⟩

end Code

end Scaffold
