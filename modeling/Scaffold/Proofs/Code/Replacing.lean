import Mathlib
import Scaffold.Proofs.Code.Layout
import Scaffold.Proofs.Code.Releases

/-!
# Replacing files

When a record is updated its old files go last. The code of a level remembers the references to all
old files, stores the new ones, persists the row, and only then deletes what it remembered, so a
failure on the way leaves files behind but loses none (`Saving.allSteps_code`). Records that an update
does not keep lose their files and those below them first, while the rows that lead to them are still
there (`allSteps_staleCode`).
-/

namespace Scaffold.Code

open Stmt

variable {c : Configuration} {branch above : List NestedRelation} {n : NestedRelation}

/-! ## Saving a record with its files -/

/-- What is needed to save a record of a level together with its files. -/
structure Saving where
  fields : List Field
  entity : String
  /-- The name of the level. -/
  name : String
  data : String
  slug : String
  /-- The expression for the record as it was. -/
  before : String
  /-- Writes the row. -/
  persist : List Stmt

namespace Saving

/-- Everything that is done with the files of a record and with its row. -/
def code (s : Saving) : List Stmt :=
  Attachment.captureCode s.fields s.before s.name ++
    (Attachment.nameCode s.fields s.data s.slug (some s.before) ++
      Attachment.uploadCode s.fields s.entity s.data s.slug) ++
    (s.persist ++ Attachment.releaseCode s.fields s.data s.name)

/-- Remembers the old reference of a field. -/
def capture (s : Saving) (field : String) : Step :=
  ⟨[], s!"{Attachment.oldVariable s.name field} = {s.before}->{field};"⟩

/-- Stores the new file of a field, if there is one. -/
def upload (s : Saving) (field : String) : Step :=
  let value := s!"{s.data}['{field}']"
  ⟨[s!"if (isset({value}) && {value} instanceof UploadedFile)" ++ " \x7b"],
    s!"{value} = uploadFile({value}, '{Attachment.folder s.entity}', {s.slug} . '_{field}');"⟩

/-- Deletes the old file of a field, if another one took its place. -/
def release (s : Saving) (field : String) : Step :=
  let old := Attachment.oldVariable s.name field
  let value := s!"{s.data}['{field}']"
  ⟨[s!"if (isset({value}) && {old} && {value} !== {old})" ++ " \x7b"], s!"deleteFile({old});"⟩

theorem allSteps_code (s : Saving) : allSteps s.code =
    (Field.attachments s.fields).map s.capture ++
      (allSteps (Attachment.nameCode s.fields s.data s.slug (some s.before)) ++
        (Field.attachments s.fields).map s.upload) ++
      (allSteps s.persist ++ (Field.attachments s.fields).map s.release) := by
  have hmap {f : String → Stmt} {g : String → Step} (hfield : ∀ field, steps (f field) = [g field]) :
      allSteps ((Field.attachments s.fields).map f) = (Field.attachments s.fields).map g := by
    simp only [allSteps_eq_flatMap, List.flatMap_map, hfield]
    exact List.flatMap_pure_eq_map _ _
  have hcapture : allSteps (Attachment.captureCode s.fields s.before s.name) =
      (Field.attachments s.fields).map s.capture :=
    hmap fun field ↦ steps_line _
  have hupload : allSteps (Attachment.uploadCode s.fields s.entity s.data s.slug) =
      (Field.attachments s.fields).map s.upload :=
    hmap fun field ↦ by simp [Attachment.uploadField, upload, Step.within]
  have hrelease : allSteps (Attachment.releaseCode s.fields s.data s.name) =
      (Field.attachments s.fields).map s.release :=
    hmap fun field ↦ by simp [Attachment.releaseField, release, Step.within]
  rw [code, allSteps_append, allSteps_append, allSteps_append, allSteps_append, hcapture, hupload,
    hrelease]

end Saving

/-- How an `update` method saves a record of a level. -/
def saving (c : Configuration) (branch : List NestedRelation) : Saving where
  fields := levelFields c branch
  entity := levelEntity c branch
  name := levelName branch
  data := dataVariable branch
  slug := slugVariable branch
  before := earlier c branch
  persist := Writer.update.persist c branch

theorem saving_inside (c : Configuration) (branch : List NestedRelation) :
    Inside (saving c branch).code (Writer.update.levelCode c branch) := by
  let w := Writer.update
  let later := remember branch ++ w.belowCode c branch ++ returned c branch
  have hafter : allSteps (w.afterSplit c branch) =
      allSteps (find c branch) ++ allSteps (saving c branch).code ++ allSteps later := by
    simp [w, later, Writer.afterSplit, Writer.before, Writer.settle, saving, Saving.code]
  refine .of_steps ?_
  cases branch with
  | nil =>
    rw [allSteps_levelCode_nil, hafter]
    exact ⟨_, _, rfl⟩
  | cons n above =>
    rw [allSteps_levelCode_cons, hafter]
    exact ⟨allSteps (w.split c (n :: above)) ++ allSteps (find c (n :: above)), allSteps later,
      by simp only [List.append_assoc]; rfl⟩

/-! ## Deleting records that are not kept -/

/-- The records of a level that an update does not keep. -/
def staleQuery (c : Configuration) (n : NestedRelation) (above : List NestedRelation) : String :=
  let accessor := s!"{Writer.update.record c above}->{n.relation.name}"
  s!"{accessor}()->whereNotIn('id', {Role.keep.variableOf (levelName (n :: above))})"

/-- How code gets at each of the records that an update does not keep. -/
def stale (c : Configuration) (n : NestedRelation) (above : List NestedRelation) : Access :=
  let name := levelName (n :: above)
  let item := Role.stale.variableOf name
  ⟨[s!"foreach ({staleQuery c n above}->get() as {item})" ++ " \x7b"], item, s!"stale_{name}"⟩

theorem allSteps_dropStale (c : Configuration) (n : NestedRelation) (above : List NestedRelation) :
    allSteps (dropStale c n above) =
      (storedFiles n.fields n.children).map (stale c n above).releaseOn ++
        [⟨[], s!"{staleQuery c n above}->delete();"⟩] := by
  rw [dropStale, staleCode, allSteps_append, ← steps_purgeTree]
  refine congrArg₂ _ ?_ (allSteps_singleton _)
  by_cases hfiles : holdsFiles n.fields n.children = true
  · rw [if_pos hfiles, allSteps_singleton, steps_braces]
    rfl
  · have hnone : purgeTree n.fields (stale c n above).record (stale c n above).name n.children = [] :=
      not_not.1 (purgeTree_ne_nil_iff.not.2 hfiles)
    rw [if_neg hfiles, hnone]
    rfl

/-! ## Updating a record -/

/-- For the record of every level an `update` method remembers the references to the old files, stores
the new ones, writes the row and deletes the old files, in this order. Of the records that are not kept
it deletes all files, of them and below them, and right afterwards the rows. -/
theorem inside_updateBody (h : IsLevel c branch) :
    (Inside (saving c branch).code (updateBody c) ∧
      allSteps (saving c branch).code =
        (Field.attachments (saving c branch).fields).map (saving c branch).capture ++
          (allSteps (Attachment.nameCode (saving c branch).fields (saving c branch).data
              (saving c branch).slug (some (saving c branch).before)) ++
            (Field.attachments (saving c branch).fields).map (saving c branch).upload) ++
          (allSteps (saving c branch).persist ++
            (Field.attachments (saving c branch).fields).map (saving c branch).release)) ∧
    ∀ n above, branch = n :: above → n.relation.kind = .hasMany →
      Inside (dropStale c n above) (updateBody c) ∧
      (holdsFiles n.fields n.children = true → storedFiles n.fields n.children ≠ []) ∧
      allSteps (dropStale c n above) =
        (storedFiles n.fields n.children).map (stale c n above).releaseOn ++
          [⟨[], s!"{staleQuery c n above}->delete();"⟩] := by
  refine ⟨⟨(saving_inside c branch).trans (h.inside .update), (saving c branch).allSteps_code⟩, ?_⟩
  rintro n above rfl hmany
  refine ⟨?_, storedFiles_ne_nil_iff.2, allSteps_dropStale c n above⟩
  cases h with
  | nested hbranch _ => exact (dropStale_inside hmany).trans (hbranch.inside .update)

/-- Books, nested in their author, with a cover each. -/
def coveredBooks : NestedRelation :=
  ⟨"Author", ⟨"books", .hasMany, "Book"⟩, [⟨"cover", "image", "image", none, []⟩], []⟩

def withCovers : Configuration :=
  ⟨"Author", "Author", [], [], [coveredBooks], .default, [], []⟩

theorem covers_replaced :
    (∃ blocks, ([⟨[], "$oldBooksCover = $booksRecord?->cover;"⟩,
        ⟨[], "$booksImageName = (string) (Str::random(10));"⟩,
        ⟨["if (strlen($booksImageName) > 20) \x7b"], "$booksImageName = substr($booksImageName, 0, 20);"⟩,
        ⟨[], "$booksImageName = Str::slug($booksImageName);"⟩,
        ⟨["if (isset($booksData['cover']) && $booksData['cover'] instanceof UploadedFile) \x7b"],
          "$booksData['cover'] = uploadFile($booksData['cover'], 'books', $booksImageName . '_cover');"⟩,
        ⟨["if ($booksRecord) \x7b"], "$booksRecord->update($booksData);"⟩,
        ⟨["if ($booksRecord) \x7b", otherwise],
          "$booksRecord = $author->books()->create($booksData);"⟩,
        ⟨["if (isset($booksData['cover']) && $oldBooksCover && $booksData['cover'] !== $oldBooksCover) \x7b"],
          "deleteFile($oldBooksCover);"⟩] : List Step).map (Step.within blocks) <:+:
            allSteps (updateBody withCovers)) ∧
    ∃ blocks, ([⟨["foreach ($author->books()->whereNotIn('id', $keepBooksIds)->get() as $staleBooks) \x7b",
          "if ($staleBooks->cover) \x7b"], "deleteFile($staleBooks->cover);"⟩,
        ⟨[], "$author->books()->whereNotIn('id', $keepBooksIds)->delete();"⟩] : List Step).map
          (Step.within blocks) <:+: allSteps (updateBody withCovers) := by
  have hlevel : IsLevel withCovers [coveredBooks] :=
    .nested (.root List.mem_cons_self) (by decide)
  obtain ⟨⟨hsaving, hsteps⟩, hstale⟩ := inside_updateBody hlevel
  obtain ⟨hdrop, -, hdropped⟩ := hstale _ _ rfl rfl
  rw [Inside, hsteps] at hsaving
  rw [Inside, hdropped] at hdrop
  refine ⟨?_, ?_⟩
  · convert hsaving using 4
    decide +kernel
  · convert hdrop using 4
    decide +kernel

end Scaffold.Code
