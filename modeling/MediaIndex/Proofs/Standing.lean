import MediaIndex.Proofs.IntakeColumns
import MediaIndex.Proofs.TableRows
import MediaIndex.Reconcile.Freshness

/-!
# Standing of a visited entry

What a pass makes of an entry it visits is told by the table: the row at the path is kept, or a
record is taken in for it, or it is passed over. Only the row at the path of the entry bears on it.
-/

namespace MediaIndex.Reconcile

open Catalog (Cell Column Entry Record Row Table)
open Disk (Attributes Tree)

inductive Standing where
  /-- The row is as on disk. -/
  | kept (entry : Entry)
  | taken (record : Record)
  /-- There is neither a row nor a record for it. -/
  | passed

def Standing.record? : Standing → Option Record
  | taken record => some record
  | _ => none

def Standing.kept? : Standing → Option Int
  | kept entry => some entry.id
  | _ => none

/-- What becomes of an entry of a volume. -/
def standing (t : Tree) (volume : String) (now : Table) (a : Attributes) : Standing :=
  match freshness a (now.lookup volume a.path) with
  | .unchanged entry => .kept entry
  | .stale | .new => match Media.recordOf? t a volume with
    | some record => .taken record
    | none => .passed

variable {t : Tree} {volume : String} {now later : Table} {a : Attributes}

theorem freshness_eq_unchanged_iff {found : Option Entry} {entry : Entry} :
    freshness a found = .unchanged entry ↔
      found = some entry ∧ (a.isDirectory = true ∨ matchesEntry a entry = true) := by
  cases found with
  | none => simp [freshness]
  | some other =>
    simp only [freshness, Option.some.injEq, ← Bool.or_eq_true]
    constructor
    · intro h
      split at h
      · next hFits => exact ⟨Freshness.unchanged.inj h, Freshness.unchanged.inj h ▸ hFits⟩
      · cases h
    · rintro ⟨rfl, hFits⟩
      rw [if_pos hFits]

theorem standing_cases (t : Tree) (volume : String) (now : Table) (a : Attributes) :
    (∃ entry, freshness a (now.lookup volume a.path) = .unchanged entry ∧
      standing t volume now a = .kept entry) ∨
    (∀ entry, freshness a (now.lookup volume a.path) ≠ .unchanged entry) ∧
      standing t volume now a = match Media.recordOf? t a volume with
        | some record => .taken record
        | none => .passed := by
  unfold standing
  cases freshness a (now.lookup volume a.path) with
  | unchanged entry => exact .inl ⟨entry, rfl, rfl⟩
  | stale => exact .inr ⟨by simp, rfl⟩
  | new => exact .inr ⟨by simp, rfl⟩

theorem standing_eq_kept_iff {entry : Entry} : standing t volume now a = .kept entry ↔
    now.lookup volume a.path = some entry ∧
      (a.isDirectory = true ∨ matchesEntry a entry = true) := by
  rw [← freshness_eq_unchanged_iff]
  rcases standing_cases t volume now a with ⟨found, hFresh, hStanding⟩ | ⟨hFresh, hStanding⟩
  · rw [hFresh, hStanding, Standing.kept.injEq, Freshness.unchanged.injEq]
  · rw [hStanding]
    constructor
    · intro h
      split at h <;> cases h
    · intro h
      exact absurd h (hFresh entry)

theorem recordOf?_of_taken {record : Record} (h : standing t volume now a = .taken record) :
    Media.recordOf? t a volume = some record := by
  rcases standing_cases t volume now a with ⟨found, _, hStanding⟩ | ⟨_, hStanding⟩
  · rw [hStanding] at h
    cases h
  · rw [hStanding] at h
    split at h
    · next found hFound => rw [hFound, Standing.taken.inj h]
    · cases h

/-- The row at the path of the entry decides. -/
theorem standing_congr (hNow : now.Sound) (hLater : later.Sound)
    (h : later.rowOf? (.text a.path.text) = now.rowOf? (.text a.path.text)) :
    standing t volume later a = standing t volume now a := by
  rw [standing, standing, hNow.lookup_eq, hLater.lookup_eq, h]

theorem row_of_kept (h : now.Sound) {entry : Entry}
    (hKept : standing t volume now a = .kept entry) :
    ∃ row, now.rowOf? (.text a.path.text) = some row ∧ row.cells .volumeName = .text volume ∧
      row.id = entry.id := by
  obtain ⟨hLookup, _⟩ := standing_eq_kept_iff.mp hKept
  rw [h.lookup_eq, Option.map_eq_some_iff] at hLookup
  obtain ⟨row, hRow, rfl⟩ := hLookup
  rw [Option.filter_eq_some_iff] at hRow
  exact ⟨row, hRow.1, beq_iff_eq.mp hRow.2, rfl⟩

theorem pathOf_of_taken {record : Record} (h : standing t volume now a = .taken record) :
    record.cells .path = .text a.path.text :=
  Media.cells_text (Media.recordOf?_path (recordOf?_of_taken h)) rfl

theorem volumeName_of_taken {record : Record} (h : standing t volume now a = .taken record) :
    record.cells .volumeName = .text volume :=
  Media.cells_text (Media.recordOf?_volumeName (recordOf?_of_taken h)) rfl

theorem size_of_taken {record : Record} (h : standing t volume now a = .taken record)
    (hStorable : Media.IsStorable record) : record.cells .size = .integer a.size :=
  hStorable.cells_int (Media.recordOf?_size (recordOf?_of_taken h)) rfl

theorem dateModified_of_taken {record : Record} (h : standing t volume now a = .taken record)
    (hStorable : Media.IsStorable record) :
    record.cells .dateModified = .integer a.modifiedSecond :=
  hStorable.cells_int (Media.recordOf?_dateModified (recordOf?_of_taken h)) rfl

/-! ## Standing once a pass has settled the path -/

theorem matchesEntry_of_taken {record : Record} (h : standing t volume now a = .taken record)
    (hStorable : Media.IsStorable record) (id : Int) :
    matchesEntry a ⟨id, record.cells .size, record.cells .dateModified⟩ = true := by
  rw [matchesEntry, size_of_taken h hStorable, dateModified_of_taken h hStorable]
  simp [Cell.isInt]

/-- The row that a storable record makes is kept by the next pass. -/
theorem kept_of_written (h : later.Sound) {record : Record} {row : Row}
    (hTaken : standing t volume now a = .taken record) (hStorable : Media.IsStorable record)
    (hRow : later.rowOf? (.text a.path.text) = some row) (hCells : row.cells = record.cells) :
    standing t volume later a = .kept ⟨row.id, row.cells .size, row.cells .dateModified⟩ := by
  refine standing_eq_kept_iff.mpr ⟨?_, .inr ?_⟩
  · have hVolume : row.hasText .volumeName volume = true := by
      rw [Row.hasText, hCells, volumeName_of_taken hTaken, beq_self_eq_true]
    rw [h.lookup_eq, hRow, Option.filter, if_pos hVolume, Option.map_some]
  · rw [hCells]
    exact matchesEntry_of_taken hTaken hStorable row.id

/-- Where there is no row any more, an entry stands as it did if its row was not kept. -/
theorem standing_of_lookup_eq_none (hNow : ∀ entry, standing t volume now a ≠ .kept entry)
    (h : later.lookup volume a.path = none) :
    standing t volume later a = standing t volume now a := by
  rcases standing_cases t volume now a with ⟨entry, -, hKept⟩ | ⟨-, hStanding⟩
  · exact absurd hKept (hNow entry)
  · rw [hStanding, standing, h]
    rfl

end MediaIndex.Reconcile
