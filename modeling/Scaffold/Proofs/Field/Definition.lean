import Mathlib
import Scaffold.Field.Basic
import Scaffold.Proofs.Field.Tokens

/-!
# Definitions read and written

A field that was read from a definition is written as its tokens, joined by colons, less the blanks
around them and the modifiers that are empty. So what is written is read as the same field
(`parse_render`), and it is the definition that was read exactly if that one has no such blanks and
modifiers.
-/

namespace Scaffold.Field

open Text

variable {name text baseType : String} {rest ts : List String} {f : Field}

/-! ## The tokens of a field -/

/-- The table that a definition names: the first token after the type, for `foreignId` only. -/
def tableOf (baseType : String) (rest : List String) : Option String :=
  if baseType == "foreignId" then rest.head? else none

/-- The modifiers that a definition lists, empty ones among them: the tokens after the type and the
table. -/
def modifiersOf (baseType : String) (rest : List String) : List String :=
  if baseType == "foreignId" then rest.tail else rest

theorem tableOf_append_modifiersOf (baseType : String) (rest : List String) :
    (tableOf baseType rest).toList ++ modifiersOf baseType rest = rest := by
  rw [tableOf, modifiersOf]
  split
  · cases rest <;> rfl
  · rfl

theorem strip_ne_empty (h : tokens (strip text) = baseType :: rest) (hbase : baseType ≠ "") :
    strip text ≠ "" := by
  intro hblank
  rw [hblank] at h
  exact hbase (List.cons.inj h).1.symm

theorem parse_of_tokens (h : tokens (strip text) = baseType :: rest) (hbase : baseType ≠ "") :
    parse name text = .ok ⟨name, strip text, baseType, tableOf baseType rest,
      foldDefaults ((modifiersOf baseType rest).filter (· != ""))⟩ := by
  have hraw : (strip text == "") = false := by simpa using strip_ne_empty h hbase
  have hname : (baseType == "") = false := by simpa using hbase
  simp only [parse, hraw, h, hname, Bool.false_eq_true, if_false]
  cases rest with
  | nil => simp [tableOf, modifiersOf]
  | cons table more =>
    by_cases hforeign : baseType = "foreignId" <;> simp [tableOf, modifiersOf, hforeign]

theorem exists_parse_error (name : String) (h : tokens (strip text) = "" :: rest) :
    ∃ e, parse name text = .error e := by
  rw [parse]
  simp only [h]
  split
  · exact ⟨_, rfl⟩
  · exact ⟨_, rfl⟩

/-- A definition is read exactly if its first token is not empty. -/
theorem parse_eq_ok_iff :
    parse name text = .ok f ↔ ∃ baseType rest, tokens (strip text) = baseType :: rest ∧
      baseType ≠ "" ∧ f = ⟨name, strip text, baseType, tableOf baseType rest,
        foldDefaults ((modifiersOf baseType rest).filter (· != ""))⟩ := by
  constructor
  · intro h
    obtain ⟨baseType, rest, htokens⟩ := List.exists_cons_of_ne_nil (tokens_ne_nil (strip text))
    have hbase : baseType ≠ "" := by
      rintro rfl
      obtain ⟨e, he⟩ := exists_parse_error name htokens
      rw [he] at h
      cases h
    rw [parse_of_tokens htokens hbase] at h
    exact ⟨baseType, rest, htokens, hbase, (Except.ok.inj h).symm⟩
  · rintro ⟨baseType, rest, htokens, hbase, rfl⟩
    exact parse_of_tokens htokens hbase

/-- The tokens that a field is written with. -/
def kept (baseType : String) (rest : List String) : List String :=
  baseType :: (tableOf baseType rest).toList ++ (modifiersOf baseType rest).filter (· != "")

theorem kept_sublist (h : tokens text = baseType :: rest) :
    (kept baseType rest).Sublist (tokens text) := by
  rw [h, kept, List.cons_append]
  conv_rhs => rw [← tableOf_append_modifiersOf baseType rest]
  exact ((List.Sublist.refl _).append List.filter_sublist).cons_cons _

/-- Nothing more is left out when the tokens kept are read again. -/
theorem tableOf_kept (baseType : String) (rest : List String) :
    tableOf baseType (kept baseType rest).tail = tableOf baseType rest := by
  rw [kept, tableOf, tableOf]
  split
  · next h => cases rest <;> simp [modifiersOf, h]
  · rfl

theorem modifiersOf_kept (baseType : String) (rest : List String) :
    modifiersOf baseType (kept baseType rest).tail =
      (modifiersOf baseType rest).filter (· != "") := by
  rw [kept, modifiersOf, modifiersOf, tableOf]
  split
  · next h => cases rest <;> simp
  · next h => simp

theorem kept_eq_iff : kept baseType rest = baseType :: rest ↔ "" ∉ modifiersOf baseType rest := by
  calc kept baseType rest = baseType :: rest
      ↔ (tableOf baseType rest).toList ++ (modifiersOf baseType rest).filter (· != "") =
          (tableOf baseType rest).toList ++ modifiersOf baseType rest := by
        rw [tableOf_append_modifiersOf, kept, List.cons_append, List.cons_inj_right]
    _ ↔ (modifiersOf baseType rest).filter (· != "") = modifiersOf baseType rest :=
        List.append_right_inj _
    _ ↔ "" ∉ modifiersOf baseType rest := by
        simpa [List.filter_eq_self] using List.forall_mem_ne'

/-! ## Folded defaults -/

theorem foldDefaults_eq_nil_iff : foldDefaults ts = [] ↔ ts = [] := by
  fun_cases foldDefaults ts <;> simp

theorem intercalate_append_congr (start : List String) {ts' : List String} (hnil : ts = [] ↔ ts' = [])
    (h : ":".intercalate ts = ":".intercalate ts') :
    ":".intercalate (start ++ ts) = ":".intercalate (start ++ ts') := by
  rcases eq_or_ne start [] with rfl | hstart
  · exact h
  · rcases eq_or_ne ts [] with rfl | hts
    · rw [hnil.1 rfl]
    · rw [String.intercalate_append_of_ne_nil hstart hts,
        String.intercalate_append_of_ne_nil hstart (mt hnil.2 hts), h]

/-- A folded default is written as the two tokens that it was folded from. -/
theorem intercalate_append_foldDefaults (start ts : List String) :
    ":".intercalate (start ++ foldDefaults ts) = ":".intercalate (start ++ ts) := by
  refine intercalate_append_congr start foldDefaults_eq_nil_iff ?_
  fun_induction foldDefaults ts with
  | case1 => rfl
  | case2 => rfl
  | case3 token next rest htoken ih =>
    obtain rfl : token = "default" := by simpa using htoken
    calc ":".intercalate (("default:" ++ next) :: foldDefaults rest)
        = "default:" ++ ":".intercalate ([next] ++ foldDefaults rest) :=
          String.intercalate_cons_append
      _ = "default:" ++ ":".intercalate ([next] ++ rest) := by
          rw [intercalate_append_congr [next] foldDefaults_eq_nil_iff ih]
      _ = ":".intercalate ("default" :: next :: rest) := by
          rw [String.intercalate_cons_cons]
          rfl
  | case4 token next rest htoken ih =>
    exact intercalate_append_congr [token] foldDefaults_eq_nil_iff ih

/-- A field is written as the tokens that were kept of its definition. -/
theorem render_eq (name raw baseType : String) (rest : List String) :
    render ⟨name, raw, baseType, tableOf baseType rest,
      foldDefaults ((modifiersOf baseType rest).filter (· != ""))⟩ =
        ":".intercalate (kept baseType rest) :=
  intercalate_append_foldDefaults _ _

/-! ## Reading what was written -/

/-- What is written for a field is read as the same field. -/
theorem parse_intercalate_kept (h : tokens text = baseType :: rest) (hbase : baseType ≠ "")
    (name : String) :
    parse name (":".intercalate (kept baseType rest)) =
      .ok ⟨name, ":".intercalate (kept baseType rest), baseType, tableOf baseType rest,
        foldDefaults ((modifiersOf baseType rest).filter (· != ""))⟩ := by
  have hstrip := strip_intercalate (kept_sublist h)
  have htokens := tokens_intercalate (kept_sublist h) (by simp [kept])
  generalize ":".intercalate (kept baseType rest) = written at *
  have hread : tokens (strip written) = baseType :: (kept baseType rest).tail := by
    rw [hstrip]
    exact htokens
  rw [parse_of_tokens hread hbase, hstrip, tableOf_kept, modifiersOf_kept, List.filter_filter]
  simp only [Bool.and_self]

/-- A definition that has no blanks around its tokens, and none of whose modifiers is empty. -/
structure Tidy (text : String) : Prop where
  trimmed : ∀ segment ∈ segments 0 text.toList, trim isBlank segment = segment
  modifiers : ∀ baseType rest, tokens text = baseType :: rest → "" ∉ modifiersOf baseType rest

/-- A field is written as the definition that it was read from, if that one is tidy. -/
theorem render_eq_text_iff (h : tokens (strip text) = baseType :: rest) :
    ":".intercalate (kept baseType rest) = text ↔ Tidy text := by
  constructor
  · intro hwritten
    have hsegments := segments_intercalate_tokens (kept_sublist h) (by simp [kept])
    have htokens := tokens_intercalate (kept_sublist h) (by simp [kept])
    rw [hwritten] at hsegments htokens
    refine ⟨fun segment hsegment ↦ ?_, fun base more hmore ↦ ?_⟩
    · rw [hsegments] at hsegment
      obtain ⟨token, htoken, rfl⟩ := List.mem_map.1 hsegment
      exact strip_eq_self_iff.1 (strip_of_mem_tokens ((kept_sublist h).subset htoken))
    · obtain ⟨rfl, rfl⟩ : baseType = base ∧ (kept baseType rest).tail = more :=
        List.cons.inj (htokens.symm.trans hmore)
      simp [modifiersOf_kept]
  · intro htidy
    have hstrip : strip text = text := by
      rw [← intercalate_tokens htidy.trimmed, strip_intercalate (List.Sublist.refl _)]
    rw [hstrip] at h
    rw [kept_eq_iff.2 (htidy.modifiers _ _ h), ← h, intercalate_tokens htidy.trimmed]

/-- **Writing a field and reading it again.** What is written for a field that was read from a
definition is read as the same field, and written as before; it is the definition itself exactly if
that one is tidy. -/
theorem parse_render (h : parse name text = .ok f) :
    parse f.name f.render = .ok { f with raw := f.render } ∧
      ({ f with raw := f.render } : Field).render = f.render ∧ (f.render = text ↔ Tidy text) := by
  obtain ⟨baseType, rest, htokens, hbase, rfl⟩ := parse_eq_ok_iff.1 h
  rw [render_eq]
  exact ⟨parse_intercalate_kept htokens hbase name, render_eq .., render_eq_text_iff htokens⟩

/-- A definition with blanks, an empty table, an empty modifier, a bare default and a parenthesis
that is left open. -/
theorem looseOwner_parse_render :
    let loose := " foreignId : :nullable::default: 0:note(a:b "
    let owner : Field :=
      ⟨"owner", strip loose, "foreignId", some "", ["nullable", "default:0", "note(a:b"]⟩
    parse "owner" loose = .ok owner ∧ owner.render = "foreignId::nullable:default:0:note(a:b" ∧
      parse "owner" owner.render = .ok { owner with raw := owner.render } ∧ ¬Tidy loose := by
  intro loose owner
  have hread : parse "owner" loose = .ok owner := by decide
  have hrender : owner.render = "foreignId::nullable:default:0:note(a:b" := by decide
  obtain ⟨hagain, -, htidy⟩ := parse_render hread
  refine ⟨hread, hrender, hagain, fun h ↦ ?_⟩
  have := htidy.2 h
  rw [hrender] at this
  exact absurd this (by decide)

end Scaffold.Field
