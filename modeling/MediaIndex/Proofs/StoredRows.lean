import MediaIndex.Proofs.CleanPass
import MediaIndex.Proofs.ClearTrees
import MediaIndex.Proofs.OutsideRows
import MediaIndex.Proofs.RecordShapes

/-!
# The rows of a catalog that passes have filled

Whatever passes fill a catalog that was empty, over whatever paths and trees, with batches and
queries that fail anywhere and passes that stop or are cut off anywhere, every row has the shape of
a category. A record replaces all columns of the row of its path, so nothing of a former category is
left in it.
-/

namespace MediaIndex

namespace Disk.Tree

/-- What any file of the tree gives for its pixels is in integers. -/
structure HasIntegerPixels (t : Tree) : Prop where
  root : t.root.media.HasIntegerPixels
  nodes : ∀ entry ∈ t.nodes, entry.2.media.HasIntegerPixels

variable {t : Tree}

theorem HasIntegerPixels.node (h : t.HasIntegerPixels) {place : Place} {n : Node}
    (hn : t.node? place = some n) : n.media.HasIntegerPixels := by
  by_cases hRoot : place = []
  · rw [node?, if_pos hRoot] at hn
    exact Option.some.inj hn ▸ h.root
  · exact h.nodes _ (mem_nodes_of_node? hRoot hn)

theorem HasIntegerPixels.media (h : t.HasIntegerPixels) {p : Path} {d : Media.Decoded}
    (hMedia : t.media p = .ok d) : d.HasIntegerPixels := by
  obtain ⟨target, hLocate, hSame⟩ := bind_eq_ok_iff.mp hMedia
  rw [← Except.ok.inj hSame]
  exact h.node (found_eq_ok_iff.mp hLocate).2

end Disk.Tree

namespace Reconcile

open Catalog (Cell Contents Row Store Table)
open Disk (Attributes Tree)

variable {t : Tree} {p : Pass} {before now middle after : Table} {walk sweep : List Call} {r : Row}

/-- The tables that passes come to from the empty one. Any tree may be there at each of them, and
the store may have any failures to come. -/
inductive Filled : Table → Prop
  | empty : Filled .empty
  | passed {t : Tree} {p : Pass} {path : Path} {told : Bool} {size : Int} {s : Store}
      {now after : Table} (h : Filled now) (hTree : t.WellFormed) (hPixels : t.HasIntegerPixels)
      (hPath : path.IsProper) (hStart : Pass.start t path told size = .ok p)
      (hs : s.contents = .table now) (hAfter : ((p.run t).run s).store.contents = .table after) :
      Filled after
  | cutOff {t : Tree} {p : Pass} {path : Path} {told : Bool} {size : Int} {s : Store}
      {now after : Table} {n : Nat} (h : Filled now) (hTree : t.WellFormed)
      (hPixels : t.HasIntegerPixels) (hPath : path.IsProper)
      (hStart : Pass.start t path told size = .ok p) (hs : s.contents = .table now)
      (hAfter : ((p.run t).steps n s).store.contents = .table after) : Filled after

/-- The row is of an absolute path without a dot in front of its last name, and it has the shape of
a category. -/
def IsFormed (r : Row) : Prop :=
  ∃ (path : Path) (category : Media.Category), path.IsAbsolute ∧
    Media.isDotName path.name = false ∧ Media.IsShapedAs path category r.cells

theorem isFormed_of_taken (hTree : t.WellFormed) (hPixels : t.HasIntegerPixels)
    (hRoot : p.root.IsAbsolute) {a : Attributes} (ha : a ∈ p.visited t) {record : Catalog.Record}
    (hTaken : standing t p.volume before a = .taken record) (hStorable : Media.IsStorable record)
    (hCells : r.cells = record.cells) : IsFormed r := by
  have hRecord := recordOf?_of_taken hTaken
  obtain ⟨category, hCategory, hShape⟩ :=
    Media.isShapedAs_of_recordOf? hRecord (fun d hMedia => hPixels.media hMedia) hStorable
  have hAbsolute := Walk.isAbsolute_of_mem_visits hTree hRoot (Pass.mem_visits_of_mem_visited ha)
  refine ⟨a.path, category, hAbsolute, ?_, hCells ▸ hShape⟩
  rw [Media.categoryOf?] at hCategory
  split at hCategory
  · cases hCategory
  · next hName => exact Bool.eq_false_iff.mpr hName

/-- However a pass ends, it leaves rows that are formed if it found such rows. -/
theorem isFormed_of_run {path : Path} {told : Bool} {size : Int} {s : Store}
    (hTree : t.WellFormed) (hPixels : t.HasIntegerPixels) (hPath : path.IsProper)
    (hNow : now.Sound) (hFormed : ∀ r ∈ now.rows, IsFormed r)
    (hStart : Pass.start t path told size = .ok p) (hs : s.contents = .table now)
    (hAfter : ((p.run t).run s).store.contents = .table after) :
    after.Sound ∧ ∀ r ∈ after.rows, IsFormed r := by
  have hRoot : p.root.IsAbsolute := (Pass.start_eq_ok hStart).2 ▸ hPath.absolute
  obtain ⟨_, middle, walk, sweep, -, hEnd, -, hRan, -⟩ := ran_of_run hTree hPath hNow hStart hs
  obtain rfl := Contents.table.inj (hAfter.symm.trans hEnd)
  refine ⟨hRan.erases.sound, fun r hr => ?_⟩
  rcases hRan.mem_before_or_taken hr with hOld | ⟨a, ha, record, hTaken, hStorable, hCells⟩
  · exact hFormed r hOld
  · exact isFormed_of_taken hTree hPixels hRoot ha hTaken hStorable hCells

/-- Every row of a catalog that was filled by passes is formed. -/
theorem stored_rows_formed (h : Filled now) : now.Sound ∧ ∀ r ∈ now.rows, IsFormed r := by
  induction h with
  | empty => exact ⟨Table.sound_empty, by simp [Table.empty]⟩
  | passed _ hTree hPixels hPath hStart hs hAfter ih =>
    exact isFormed_of_run hTree hPixels hPath ih.1 ih.2 hStart hs hAfter
  | @cutOff _ p _ _ _ s _ _ n _ hTree hPixels hPath hStart hs hAfter ih =>
    -- Up to where it is cut off, a pass does what it would do if all later batches failed.
    obtain ⟨positions, hSame⟩ := (p.run _).exists_failing n s
    exact isFormed_of_run hTree hPixels hPath ih.1 ih.2 hStart (s := s.failing positions) hs
      (hSame.trans hAfter)

/-! ## A picture in the place of a playlist -/

/-- A directory with a picture whose tags do not give its size. -/
def pictureTree : Tree :=
  ⟨.plain .directory,
    [(["m"], .plain .directory),
     (["m", "a.png"], { Disk.Node.plain .file with
       media := { Media.Decoded.nothing with
         picture := .found []
         pixels := .found [.int 640, .int 480] } })]⟩

def picture : Attributes :=
  ⟨⟨.root, ["m", "a.png"]⟩, 0, Disk.Node.defaultTime, Disk.Node.defaultTime, false⟩

theorem pictureTree_wellFormed : pictureTree.WellFormed := ⟨by decide, by decide⟩

theorem pictureTree_pixels : pictureTree.HasIntegerPixels := by
  constructor
  · intro values hValues
    cases hValues
  · intro entry hEntry values hValues
    fin_cases hEntry <;> cases hValues
    simp

theorem picture_start :
    Pass.start pictureTree ⟨.root, ["m"]⟩ false 32 = .ok playlistPass := by cbv

theorem picture_read : Media.readPicture pictureTree (Media.sourceOf picture "/") =
    .ok ([], .int 640, .int 480) := by
  have hOpens : pictureTree.openToRead picture.path = .ok () := by cbv
  have hMedia : pictureTree.media picture.path = .ok { Media.Decoded.nothing with
      picture := .found []
      pixels := .found [.int 640, .int 480] } := by cbv
  have hPath : (Media.sourceOf picture "/").path = picture.path := rfl
  simp only [Media.readPicture, Media.Source.decode, hPath, hOpens, hMedia]
  rfl

/-- The picture can be stored, and it is taken in where there is no row for it. -/
theorem picture_tame : isTame pictureTree "/" (.visit picture) = true ∧
    ∃ record, standing pictureTree "/" .empty picture = .taken record := by
  have hCategory : Media.categoryOf? picture.path.name picture.isDirectory = some .image := by
    decide +kernel
  obtain ⟨extraction, hColumns, hFits⟩ : ∃ extraction, Media.imageColumns
      (Media.sourceOf picture "/") [] (.int 640) (.int 480) = .ok extraction ∧
        extraction.record.firstUnbound?.isNone = true := ⟨_, rfl, by decide +kernel⟩
  have hExtract : Media.extract pictureTree .image (Media.sourceOf picture "/") =
      .ok extraction := by
    rw [Media.extract, Media.extractImage, picture_read]
    exact congrArg Media.Extracted.ofConverted hColumns
  constructor
  · rw [isTame, Media.takeIn_of_extract hCategory hExtract]
    exact hFits
  · apply exists_taken_of_isSome
    rw [standing, Media.recordOf?, Media.takeIn_of_extract hCategory hExtract]
    rfl

theorem picture_reports : playlistPass.Reports pictureTree
    [.visit playlistDirectory, .visit picture, .leave ⟨.root, ["m"]⟩] := by
  refine ⟨by cbv, Walk.walk_of_single (by cbv) (by cbv) (by cbv), ?_⟩
  have hDirectory : isTame pictureTree "/" (.visit playlistDirectory) = true := by decide +kernel
  have hLeave : isTame pictureTree "/" (.leave ⟨.root, ["m"]⟩) = true := rfl
  simp [playlistPass, hDirectory, picture_tame.1, hLeave]

/-- The row of the picture is there and formed. -/
theorem stored_rows_formed_picture :
    ∃ now, Filled now ∧ (∃ r, now.rowOf? (.text "/m/a.png") = some r) ∧
      ∀ r ∈ now.rows, IsFormed r := by
  have hHealthy : (Store.ofTable .empty 0).Healthy := ⟨⟨rfl, rfl, rfl⟩, rfl, rfl⟩
  obtain ⟨hReturns, hFailed, -⟩ := clean_of_healthy pictureTree_wellFormed playlist_isProper
    Table.sound_empty picture_start rfl hHealthy picture_reports.quiet picture_reports.storable
    Table.numbered_empty (by decide)
  obtain ⟨after, _, _, _, _, hAfter, -, h⟩ := complete_of_run pictureTree_wellFormed
    playlist_isProper Table.sound_empty picture_start rfl hReturns
  have hFilled : Filled after := .passed .empty pictureTree_wellFormed pictureTree_pixels
    playlist_isProper picture_start rfl hAfter
  have hVisited : picture ∈ playlistPass.visited pictureTree := by
    rw [picture_reports.visited]
    exact List.mem_cons_of_mem _ List.mem_cons_self
  obtain ⟨record, hTaken⟩ := picture_tame.2
  obtain ⟨r, hRow, -⟩ := h.row_of_taken pictureTree_wellFormed Table.sound_empty
    playlist_isProper.absolute hFailed hVisited hTaken
  exact ⟨after, hFilled, ⟨r, hRow⟩, (stored_rows_formed hFilled).2⟩

end Reconcile

end MediaIndex
