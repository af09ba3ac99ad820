import MediaIndex.Proofs.BareTree
import MediaIndex.Proofs.Exactness

/-!
# What one file does to the rows of others

Two passes over trees that differ in the media of their files alone. A value that no column can hold
is found out when its batch is applied, and the batch fails as a whole, so a file may cost others
their rows. The row at a path comes out the same in both passes exactly if the same operations on
that path took effect: those of batches all of whose values can be given to the table.
-/

namespace MediaIndex.Reconcile

open Catalog (Cell Operation Record Row Store Table)
open Disk (Attributes Tree)

variable {t t' : Tree} {p : Pass} {before middle after middle' after' : Table}
  {walk sweep walk' sweep' : List Call}

/-! ## Passes over two trees -/

theorem Pass.start_bare (t : Tree) (path : Path) (told : Bool) (size : Int) :
    Pass.start t.bare path told size = Pass.start t path told size := by
  rw [start, start, Tree.volumeOf_bare]

theorem Pass.isHidden_bare (t : Tree) (p : Pass) : p.isHidden t.bare = p.isHidden t := by
  simp only [isHidden, startDirectory, Tree.isDirectory?_bare, Walk.isHiddenLocation_bare]

theorem Pass.visited_bare (t : Tree) (p : Pass) : p.visited t.bare = p.visited t := by
  rw [visited, visited, Pass.isHidden_bare, Walk.visits, Walk.visits, Walk.walk_bare]

theorem wellFormed_of_bare_eq (hSame : t'.bare = t.bare) (h : t.WellFormed) : t'.WellFormed := by
  have hPlaces : t'.nodes.map (·.1) = t.nodes.map (·.1) := by
    have hNodes := congrArg (fun t : Tree => t.nodes.map (·.1)) hSame
    simpa [Tree.bare, Function.comp_def] using hNodes
  exact ⟨hPlaces ▸ h.named, hPlaces ▸ h.distinct⟩

theorem standing_eq_of_media (hSame : t'.bare = t.bare) {a : Attributes}
    (hMedia : t'.media a.path = t.media a.path) (volume : String) (now : Table) :
    standing t' volume now a = standing t volume now a := by
  have hOpen : t'.openToRead a.path = t.openToRead a.path := by
    rw [← Tree.openToRead_bare, hSame, Tree.openToRead_bare]
  simp only [standing, Media.recordOf?, Media.takeIn_congr hOpen hMedia]

/-! ## Operations on one path -/

/-- The operations on a path: writing the record that is due to an entry there, and deleting the row
of the volume that stands there. -/
inductive Concerns (t : Tree) (p : Pass) (before : Table) (text : String) : Operation → Prop
  | upsert {a : Attributes} {record : Record} (ha : a ∈ p.visited t) (hText : a.path.text = text)
      (hTaken : standing t p.volume before a = .taken record) :
      Concerns t p before text (.upsert record)
  | delete {row : Row} (hRow : before.rowOf? (.text text) = some row)
      (hIsOf : Table.IsOf p.volume p.root row) : Concerns t p before text (.delete row.id)

/-- The operation was submitted in a batch all of whose values can be given to the table. -/
def Carried (calls : List Call) (op : Operation) : Prop :=
  ∃ call ∈ calls, op ∈ call.ops ∧ ∀ other ∈ call.ops, other.unfit? = none

/-- No record for the path was applied. -/
def Unwritten (t : Tree) (p : Pass) (before : Table) (text : String) (calls : List Call) : Prop :=
  ∀ record, Concerns t p before text (.upsert record) → Operation.upsert record ∉ applied calls

theorem Concerns.congr {text : String} (hVisited : p.visited t' = p.visited t)
    (hStanding : ∀ a ∈ p.visited t, a.path.text = text →
      standing t' p.volume before a = standing t p.volume before a) {op : Operation}
    (h : Concerns t p before text op) : Concerns t' p before text op := by
  cases h with
  | upsert ha hText hTaken =>
    exact .upsert (hVisited ▸ ha) hText ((hStanding _ ha hText).trans hTaken)
  | delete hRow hIsOf => exact .delete hRow hIsOf

section

variable (h : Ran t p before middle after walk sweep)

include h

theorem Ran.mem_applied_iff_carried {s : Store} (hHealthy : s.Healthy)
    (hCalls : (p.run t).calls s = walk ++ sweep) {op : Operation} :
    op ∈ applied (walk ++ sweep) ↔ Carried (walk ++ sweep) op := by
  have hAnswers := ((p.run t).answers_run hHealthy.toAnswers).2
  have hApplies := ((p.run t).healthy_run hHealthy).2
  rw [hCalls] at hAnswers hApplies
  rw [mem_applied]
  constructor
  · rintro ⟨call, hCall, hApplied, hOp⟩
    exact ⟨call, hCall, hOp, (hAnswers call hCall).2.1 hApplied⟩
  · rintro ⟨call, hCall, hOp, hFits⟩
    refine ⟨call, hCall, hApplies call hCall ?_ ?_, hOp⟩
    · cases call with
      | submit ops reply => rfl
      | lookup volume path reply => cases hOp
      | idsUnder volume root reply => cases hOp
    · intro other hOther
      refine ⟨hFits other hOther, ?_⟩
      rcases h.operation_cases (List.mem_flatMap.mpr ⟨call, hCall, hOther⟩) with
        ⟨record, hRecord, rfl⟩ | ⟨r, hr, rfl⟩
      · exact (isFit_of_due hRecord
          (Media.firstUnbound?_eq_none_iff.mp (hFits _ hOther))).complete
      · simp

theorem Ran.cells_of_upsert {a : Attributes} (ha : a ∈ p.visited t) {record : Record}
    (hTaken : standing t p.volume before a = .taken record)
    (hApplied : Operation.upsert record ∈ applied (walk ++ sweep)) :
    Media.IsStorable record ∧
      (after.rowOf? (.text a.path.text)).map (·.cells) = some record.cells := by
  have hWritten := h.upsert_mem_applied_iff.mp hApplied
  obtain ⟨row, hRow, hCells, -⟩ := row_of_written h.writes hTaken hWritten
  refine ⟨h.storable record hWritten, ?_⟩
  rw [h.after_of_confirmed ha (.inr ⟨record, hWritten, hTaken⟩) hRow, Option.map_some, hCells]

theorem Ran.middle_of_unwritten {text : String}
    (hNone : Unwritten t p before text (walk ++ sweep)) :
    middle.rowOf? (.text text) = before.rowOf? (.text text) := by
  refine rowOf?_of_unwritten h.writes (fun record => h.mem_dueRecords) ?_
  intro a ha hText record hWritten hTaken
  exact hNone record (.upsert ha (Cell.text.inj hText).symm hTaken)
    (h.upsert_mem_applied_iff.mpr hWritten)

theorem Ran.after_of_unwritten {text : String}
    (hNone : Unwritten t p before text (walk ++ sweep)) :
    after.rowOf? (.text text) =
      (before.rowOf? (.text text)).filter fun row => row.id ∉ erased sweep := by
  rw [h.erases.rows, h.middle_of_unwritten hNone]

theorem Ran.concerns_of_delete {text : String}
    (hNone : Unwritten t p before text (walk ++ sweep)) {row : Row}
    (hRow : before.rowOf? (.text text) = some row)
    (hDelete : Operation.delete row.id ∈ applied (walk ++ sweep)) :
    Concerns t p before text (.delete row.id) := by
  obtain ⟨r, hr, hEq, hIsOf, -⟩ := h.deletes _
    ((applied_sublist sweep).subset (mem_erased_iff.mp (h.delete_mem_applied_iff.mp hDelete)))
  have hMiddle := (h.middle_of_unwritten hNone).trans hRow
  have hMem := (Table.mem_of_rowOf?_eq_some hMiddle).1
  rw [← h.writes.sound.eq_of_id_eq hMem hr (Operation.delete.inj hEq)] at hIsOf
  exact .delete hRow hIsOf

theorem Ran.delete_not_mem_applied {a : Attributes} (ha : a ∈ p.visited t) {record : Record}
    (hTaken : standing t p.volume before a = .taken record)
    (hApplied : Operation.upsert record ∈ applied (walk ++ sweep)) {row : Row}
    (hRow : before.rowOf? (.text a.path.text) = some row) :
    Operation.delete row.id ∉ applied (walk ++ sweep) := by
  obtain ⟨r, hMiddle, hId, -⟩ := h.writes.row_of_row hRow
  rw [h.delete_mem_applied_iff, ← hId]
  exact h.not_mem_erased ha
    (.inr ⟨record, h.upsert_mem_applied_iff.mp hApplied, hTaken⟩) hMiddle

end

/-! ## The row at one path in two passes -/

section

variable (h : Ran t p before middle after walk sweep)
  (h' : Ran t' p before middle' after' walk' sweep')
  {text : String} (hVisited : p.visited t' = p.visited t)
  (hStanding : ∀ a ∈ p.visited t, a.path.text = text →
    standing t' p.volume before a = standing t p.volume before a)

include h h' hVisited hStanding

theorem Ran.cells_ne_of_upsert (hBefore : before.Sound) {record : Record}
    (hConcerns : Concerns t p before text (.upsert record))
    (hApplied : Operation.upsert record ∈ applied (walk ++ sweep))
    (hNot : Operation.upsert record ∉ applied (walk' ++ sweep')) :
    (after'.rowOf? (.text text)).map (·.cells) ≠ (after.rowOf? (.text text)).map (·.cells) := by
  cases hConcerns with
  | @upsert a _ ha hText hTaken =>
    subst hText
    obtain ⟨hStorable, hCells⟩ := h.cells_of_upsert ha hTaken hApplied
    rw [hCells]
    intro hSame
    obtain ⟨row, hRow, hRowCells⟩ := Option.map_eq_some_iff.mp hSame
    have hNone : Unwritten t' p before a.path.text (walk' ++ sweep') := by
      rintro other (@⟨b, _, hb, hText, hOther⟩)
      obtain rfl := h'.eq_of_text_eq hb (hVisited ▸ ha) hText
      rw [hStanding b ha rfl, hTaken, Standing.taken.injEq] at hOther
      exact hOther ▸ hNot
    -- A row that had the cells of the record before the pass would have been kept.
    rw [h'.after_of_unwritten hNone] at hRow
    have hOld := (Option.filter_eq_some_iff.mp hRow).1
    rw [kept_of_written hBefore hTaken hStorable hOld hRowCells] at hTaken
    cases hTaken

theorem Ran.cells_eq_iff_of_unwritten (hNone : Unwritten t p before text (walk ++ sweep))
    (hNone' : Unwritten t' p before text (walk' ++ sweep')) :
    (after'.rowOf? (.text text)).map (·.cells) = (after.rowOf? (.text text)).map (·.cells) ↔
      ∀ row, Concerns t p before text (.delete row) →
        (Operation.delete row ∈ applied (walk ++ sweep) ↔
          Operation.delete row ∈ applied (walk' ++ sweep')) := by
  rw [h.after_of_unwritten hNone, h'.after_of_unwritten hNone']
  cases hRow : before.rowOf? (.text text) with
  | none =>
    apply iff_of_true rfl
    rintro id (_ | ⟨hOther, -⟩)
    rw [hRow] at hOther
    cases hOther
  | some row =>
    have hConcerns := h.concerns_of_delete hNone hRow
    have hConcerns' := fun hDelete => (h'.concerns_of_delete hNone' hRow hDelete).congr
      hVisited.symm fun a ha hText => (hStanding a (hVisited ▸ ha) hText).symm
    rw [h.delete_mem_applied_iff] at hConcerns
    rw [h'.delete_mem_applied_iff] at hConcerns'
    simp only [h.delete_mem_applied_iff, h'.delete_mem_applied_iff]
    constructor
    · rintro hSame id (_ | @⟨other, hOther, hIsOf⟩)
      obtain rfl := Option.some.inj (hOther.symm.trans hRow)
      by_cases hErased : other.id ∈ erased sweep <;>
        by_cases hErased' : other.id ∈ erased sweep' <;>
          simp [Option.filter, hErased, hErased'] at hSame ⊢
    · intro hOps
      have hErased : row.id ∈ erased sweep ↔ row.id ∈ erased sweep' :=
        ⟨fun hErased => (hOps _ (hConcerns hErased)).mp hErased,
          fun hErased' => (hOps _ (hConcerns' hErased')).mpr hErased'⟩
      simp only [Option.filter, hErased]

/-- Where the record for a path was applied in the first pass, the row comes out the same exactly if
it was applied in the second one. -/
theorem Ran.cells_eq_iff_of_written (hBefore : before.Sound) {record : Record}
    (hConcerns : Concerns t p before text (.upsert record))
    (hApplied : Operation.upsert record ∈ applied (walk ++ sweep)) :
    (after'.rowOf? (.text text)).map (·.cells) = (after.rowOf? (.text text)).map (·.cells) ↔
      ∀ op, Concerns t p before text op →
        (op ∈ applied (walk ++ sweep) ↔ op ∈ applied (walk' ++ sweep')) := by
  have hVisited' : p.visited t = p.visited t' := hVisited.symm
  constructor
  · intro hSame
    have hApplied' : Operation.upsert record ∈ applied (walk' ++ sweep') := Classical.not_not.mp
      fun hNot => h.cells_ne_of_upsert h' hVisited hStanding hBefore hConcerns hApplied hNot hSame
    obtain @⟨a, _, ha, rfl, hTaken⟩ | _ := hConcerns
    rintro _ (@⟨b, other, hb, hText, hOther⟩ | ⟨hRow, hIsOf⟩)
    · obtain rfl := h.eq_of_text_eq hb ha hText
      obtain rfl := Standing.taken.inj (hOther.symm.trans hTaken)
      exact iff_of_true hApplied hApplied'
    · exact iff_of_false (h.delete_not_mem_applied ha hTaken hApplied hRow)
        (h'.delete_not_mem_applied (hVisited' ▸ ha) ((hStanding a ha rfl).trans hTaken) hApplied'
          hRow)
  · intro hOps
    have hApplied' := (hOps _ hConcerns).mp hApplied
    obtain @⟨a, _, ha, rfl, hTaken⟩ | _ := hConcerns
    rw [(h.cells_of_upsert ha hTaken hApplied).2, (h'.cells_of_upsert (hVisited' ▸ ha)
      ((hStanding a ha rfl).trans hTaken) hApplied').2]

/-- The row at a path comes out the same exactly if the same operations on it were applied. -/
theorem Ran.cells_eq_iff (hBefore : before.Sound) :
    (after'.rowOf? (.text text)).map (·.cells) = (after.rowOf? (.text text)).map (·.cells) ↔
      ∀ op, Concerns t p before text op →
        (op ∈ applied (walk ++ sweep) ↔ op ∈ applied (walk' ++ sweep')) := by
  have hVisited' : p.visited t = p.visited t' := hVisited.symm
  have hStanding' : ∀ a ∈ p.visited t', a.path.text = text →
      standing t p.volume before a = standing t' p.volume before a := fun a ha hText =>
    (hStanding a (hVisited ▸ ha) hText).symm
  -- The record for the path was applied in the first pass, in the second one alone, or in neither.
  by_cases hUpsert : ∃ record, Concerns t p before text (.upsert record) ∧
      Operation.upsert record ∈ applied (walk ++ sweep)
  · obtain ⟨record, hConcerns, hApplied⟩ := hUpsert
    exact h.cells_eq_iff_of_written h' hVisited hStanding hBefore hConcerns hApplied
  · by_cases hUpsert' : ∃ record, Concerns t' p before text (.upsert record) ∧
        Operation.upsert record ∈ applied (walk' ++ sweep')
    · obtain ⟨record, hConcerns', hApplied'⟩ := hUpsert'
      have hConcerns := hConcerns'.congr hVisited' hStanding'
      have hNot : Operation.upsert record ∉ applied (walk ++ sweep) := fun hApplied =>
        hUpsert ⟨record, hConcerns, hApplied⟩
      refine iff_of_false ?_ fun hOps => hNot ((hOps _ hConcerns).mpr hApplied')
      exact (h'.cells_ne_of_upsert h hVisited' hStanding' hBefore hConcerns' hApplied' hNot).symm
    · have hNone : Unwritten t p before text (walk ++ sweep) := fun record hConcerns hApplied =>
        hUpsert ⟨record, hConcerns, hApplied⟩
      have hNone' : Unwritten t' p before text (walk' ++ sweep') :=
        fun record hConcerns hApplied => hUpsert' ⟨record, hConcerns, hApplied⟩
      rw [h.cells_eq_iff_of_unwritten h' hVisited hStanding hNone hNone']
      constructor
      · intro hDeletes op hConcerns
        cases op with
        | upsert record =>
          exact iff_of_false (hNone record hConcerns)
            (hNone' record (hConcerns.congr hVisited hStanding))
        | delete id => exact hDeletes id hConcerns
        | unknown v => cases hConcerns
      · exact fun hOps id => hOps (.delete id)

end

theorem Complete.mem_applied_iff {half full : Queue}
    (h : Complete t p before middle after walk sweep half full) (hBefore : before.Sound)
    (hRoot : p.root.IsAbsolute) (hFailed : full.failed = 0) {text : String} {op : Operation}
    (hConcerns : Concerns t p before text op) : op ∈ applied (walk ++ sweep) ↔
      (∃ record, op = .upsert record) ∨
        ∀ a ∈ p.visited t, a.path.text = text → standing t p.volume before a = .passed := by
  cases hConcerns with
  | upsert ha hText hTaken =>
    refine iff_of_true (h.upsert_mem_applied_iff.mpr ?_) (.inl ⟨_, rfl⟩)
    rw [h.written_eq hFailed]
    exact mem_dueRecords.mpr ⟨_, ha, hTaken⟩
  | @delete row hRow hIsOf =>
    have hText : row.cells .path = .text text := (Table.mem_of_rowOf?_eq_some hRow).2
    have hRowMem : row ∈ before.rows := (Table.mem_of_rowOf?_eq_some hRow).1
    rw [h.delete_mem_applied_iff, mem_erased_iff, (h.applied_eq hFailed).2,
      h.delete_mem_sweep_iff hBefore hRoot]
    constructor
    · rintro ⟨other, hOther, hId, -, hNone⟩
      obtain rfl := hBefore.eq_of_id_eq hOther hRowMem hId
      refine .inr fun a ha hPath => Classical.byContradiction fun hStanding => hNone ?_
      exact ⟨a, ha, hPath ▸ hText, (h.confirmed_iff hFailed ha).mpr hStanding⟩
    · rintro (⟨record, hRecord⟩ | hPassed)
      · cases hRecord
      · refine ⟨row, hRowMem, rfl, hIsOf, ?_⟩
        rintro ⟨a, ha, hPath, hConfirmed⟩
        exact (h.confirmed_iff hFailed ha).mp hConfirmed
          (hPassed a ha (Cell.text.inj (hPath.symm.trans hText)))

/-- Over a healthy store the row at a path whose entries have the same media comes out the same in
two passes, over trees that differ in their media alone, exactly if the same operations on it were
submitted in batches all of whose values can be given to the table. It does if all records due in
either pass can be stored. -/
theorem isolated_iff {path : Path} {told : Bool} {size : Int} {s : Store} (hTree : t.WellFormed)
    (hSame : t'.bare = t.bare) (hPath : path.IsProper) (hBefore : before.Sound)
    (hStart : Pass.start t path told size = .ok p) (hs : s.contents = .table before)
    (hHealthy : s.Healthy) :
    ∃ after after', ((p.run t).run s).store.contents = .table after ∧
      ((p.run t').run s).store.contents = .table after' ∧
      ∀ text, (∀ a ∈ p.visited t, a.path.text = text → t'.media a.path = t.media a.path) →
        ((after'.rowOf? (.text text)).map (·.cells) = (after.rowOf? (.text text)).map (·.cells) ↔
          ∀ op, Concerns t p before text op →
            (Carried ((p.run t).calls s) op ↔ Carried ((p.run t').calls s) op)) ∧
        (p.IsQuiet t → p.IsQuiet t' → (∀ r ∈ before.rows, Catalog.fitsWord r.id = true) →
          (∀ record ∈ dueRecords t p.volume before (p.visited t), Media.IsStorable record) →
          (∀ record ∈ dueRecords t' p.volume before (p.visited t'), Media.IsStorable record) →
          (after'.rowOf? (.text text)).map (·.cells) =
            (after.rowOf? (.text text)).map (·.cells)) := by
  have hTree' := wellFormed_of_bare_eq hSame hTree
  have hRoot : p.root.IsAbsolute := (Pass.start_eq_ok hStart).2 ▸ hPath.absolute
  have hStart' : Pass.start t' path told size = .ok p := by
    rw [← Pass.start_bare, hSame, Pass.start_bare, hStart]
  have hVisited : p.visited t' = p.visited t := by
    rw [← Pass.visited_bare, hSame, Pass.visited_bare]
  obtain ⟨after, middle, walk, sweep, _, hAfter, hCalls, h, hComplete⟩ :=
    ran_of_run hTree hPath hBefore hStart hs
  obtain ⟨after', middle', walk', sweep', _, hAfter', hCalls', h', hComplete'⟩ :=
    ran_of_run hTree' hPath hBefore hStart' hs
  refine ⟨after, after', hAfter, hAfter', ?_⟩
  intro text hMedia
  have hStanding : ∀ a ∈ p.visited t, a.path.text = text →
      standing t' p.volume before a = standing t p.volume before a := fun a ha hText =>
    standing_eq_of_media hSame (hMedia a ha hText) p.volume before
  have hCells := h.cells_eq_iff h' hVisited hStanding hBefore
  constructor
  · rw [hCells, hCalls, hCalls']
    refine forall_congr' fun op => forall_congr' fun hConcerns => ?_
    rw [h.mem_applied_iff_carried hHealthy hCalls, h'.mem_applied_iff_carried hHealthy hCalls']
  · intro hQuiet hQuiet' hRows hDue hDue'
    have hReturns := returns_of_answers hTree hPath hBefore hStart hs hHealthy.toAnswers hQuiet hDue
      hRows
    have hReturns' := returns_of_answers hTree' hPath hBefore hStart' hs hHealthy.toAnswers hQuiet'
      hDue' hRows
    have hFailed := failed_eq_zero_of_healthy hTree hPath hBefore hStart hs hHealthy hQuiet hDue
      hRows
    have hFailed' := failed_eq_zero_of_healthy hTree' hPath hBefore hStart' hs hHealthy hQuiet'
      hDue' hRows
    refine hCells.mpr fun op hConcerns => ?_
    rw [(hComplete hReturns).mem_applied_iff hBefore hRoot hFailed hConcerns,
      (hComplete' hReturns').mem_applied_iff hBefore hRoot hFailed'
        (hConcerns.congr hVisited hStanding), hVisited]
    refine or_congr Iff.rfl (forall_congr' fun a => forall_congr' fun ha =>
      forall_congr' fun hText => ?_)
    rw [hStanding a ha hText]

/-- A directory with a playlist and a video with a title. -/
def clipTree (title : Media.Value) : Tree :=
  ⟨.plain .directory,
    [(["m"], .plain .directory),
     (["m", "a.m3u"], .plain .file),
     (["m", "b.mp4"], { Disk.Node.plain .file with
       media := { Media.Decoded.nothing with
         tracks := .found [[("track_type", .text "General"), ("title", title)],
           [("track_type", .text "Video")]] } })]⟩

theorem isolated_iff_clip :
    ∃ after after', ((playlistPass.run (clipTree (.text "b"))).run
        (.ofTable outdatedTable 0)).store.contents = .table after ∧
      ((playlistPass.run (clipTree (.list [.text "b", .text "c"]))).run
        (.ofTable outdatedTable 0)).store.contents = .table after' ∧
      ∀ text, (∀ a ∈ playlistPass.visited (clipTree (.text "b")), a.path.text = text →
          (clipTree (.list [.text "b", .text "c"])).media a.path =
            (clipTree (.text "b")).media a.path) →
        ((after'.rowOf? (.text text)).map (·.cells) = (after.rowOf? (.text text)).map (·.cells) ↔
          ∀ op, Concerns (clipTree (.text "b")) playlistPass outdatedTable text op →
            (Carried ((playlistPass.run (clipTree (.text "b"))).calls
                (.ofTable outdatedTable 0)) op ↔
              Carried ((playlistPass.run (clipTree (.list [.text "b", .text "c"]))).calls
                (.ofTable outdatedTable 0)) op)) ∧
        (playlistPass.IsQuiet (clipTree (.text "b")) →
          playlistPass.IsQuiet (clipTree (.list [.text "b", .text "c"])) →
          (∀ r ∈ outdatedTable.rows, Catalog.fitsWord r.id = true) →
          (∀ record ∈ dueRecords (clipTree (.text "b")) "/" outdatedTable
            (playlistPass.visited (clipTree (.text "b"))), Media.IsStorable record) →
          (∀ record ∈ dueRecords (clipTree (.list [.text "b", .text "c"])) "/" outdatedTable
            (playlistPass.visited (clipTree (.list [.text "b", .text "c"]))),
              Media.IsStorable record) →
          (after'.rowOf? (.text text)).map (·.cells) =
            (after.rowOf? (.text text)).map (·.cells)) :=
  isolated_iff ⟨by decide, by decide⟩ rfl playlist_isProper outdatedTable_sound
    (by cbv : Pass.start _ _ false 32 = _) rfl ⟨⟨rfl, rfl, rfl⟩, rfl, rfl⟩

end MediaIndex.Reconcile
