import MediaIndex.Proofs.BatchEffects
import MediaIndex.Proofs.Interleaving
import MediaIndex.Proofs.PassLedger

/-!
# Passes in concert

Several passes of one volume may work on one table at a time. What becomes of a path is settled by
the table that they all start from: its row is kept, a record is taken in for it, or it is passed
over. From then on no pass does more at a path than bring it to that; a row that was kept or written
so stays as it is, and a row that is deleted is one that was passed over.
-/

namespace MediaIndex

namespace Catalog.Row

theorem Inherits.trans {r r' : Row} {old : Option Row} {counter later : Int}
    (h : r.Inherits old counter) (h' : r'.Inherits (some r) later) : r'.Inherits old counter := by
  obtain ⟨hId, hAdded⟩ := h'
  cases old with
  | none => exact (show counter < r'.id from hId ▸ h)
  | some o => exact ⟨hId.trans h.1, hAdded.trans h.2⟩

/-- A row that inherits another one with the same cells is that row. -/
theorem Inherits.eq {r r' : Row} {counter : Int} (h : r'.Inherits (some r) counter)
    (hCells : r'.cells = r.cells) : r' = r := by
  obtain ⟨hId, hAdded⟩ := h
  cases r
  cases r'
  congr

end Catalog.Row

namespace Reconcile

open Catalog (Cell Entry Operation Record Row Store Table)
open Disk (Attributes Tree)

/-- The row is what an entry of this standing comes to. -/
def Standing.Fits : Standing → Row → Prop
  | .kept _, _ => True
  | .taken record, r => r.cells = record.cells
  | .passed, _ => False

theorem Standing.Fits.ne_passed {fate : Standing} {r : Row} (h : fate.Fits r) : fate ≠ .passed := by
  rintro rfl
  exact h

/-! ## What becomes of a path -/

/-- What passes may make of the row of a path. Only such rows are deleted as may go. -/
inductive Moved (mayGo : Row → Prop) (counter : Int) : Standing → Option Row → Option Row → Prop
  | same {fate : Standing} {row : Option Row} : Moved mayGo counter fate row row
  | written {record : Record} {old : Option Row} {row : Row}
      (hStorable : Media.IsStorable record) (hCells : row.cells = record.cells)
      (hInherits : row.Inherits old counter) : Moved mayGo counter (.taken record) old (some row)
  | gone {row : Row} (h : mayGo row) : Moved mayGo counter .passed (some row) none

section

variable {mayGo : Row → Prop} {counter later : Int} {fate : Standing} {old new last : Option Row}
  {r : Row}

theorem Moved.trans (h : Moved mayGo counter fate old new) (h' : Moved mayGo later fate new last)
    (hLe : counter ≤ later) : Moved mayGo counter fate old last := by
  cases h' with
  | same => exact h
  | written hStorable hCells hInherits =>
    cases h with
    | same => exact .written hStorable hCells (hInherits.mono hLe)
    | written _ _ hOld => exact .written hStorable hCells (hOld.trans hInherits)
  | gone hGo =>
    cases h with
    | same => exact .gone hGo

theorem Moved.eq_of_fits (h : Moved mayGo counter fate (some r) new) (hFits : fate.Fits r) :
    new = some r := by
  cases h with
  | same => rfl
  | written _ hCells hInherits => rw [hInherits.eq (hCells.trans hFits.symm)]
  | gone => exact hFits.elim

theorem Moved.exists_row (h : Moved mayGo counter fate (some r) new) (hFate : fate ≠ .passed) :
    ∃ r', new = some r' ∧ r'.id = r.id := by
  cases h with
  | same => exact ⟨r, rfl, rfl⟩
  | written _ _ hInherits => exact ⟨_, rfl, hInherits.1⟩
  | gone => exact absurd rfl hFate

/-- A number that was in use already has stood at the path before. -/
theorem Moved.exists_old (h : Moved mayGo counter fate old (some r)) (hId : r.id ≤ counter) :
    ∃ o, old = some o ∧ o.id = r.id := by
  cases h with
  | same => exact ⟨r, rfl, rfl⟩
  | written _ _ hInherits =>
    cases old with
    | none => exact absurd hInherits (Int.not_lt.mpr hId)
    | some o => exact ⟨o, rfl, hInherits.1.symm⟩

end

/-- Passes of one volume over one tree that start at one table: what they visit in all, and the
roots that they start from. -/
structure Concert where
  tree : Tree
  volume : String
  start : Table
  entries : List Attributes
  roots : List Path

namespace Concert

variable (k : Concert)

/-- The table that is started from is sound, the passes agree on what they both visit, and they
visit nothing that does not lie at or below a root. -/
structure IsSound : Prop where
  start : k.start.Sound
  distinct : ∀ a ∈ k.entries, ∀ b ∈ k.entries, a.path.text = b.path.text → a = b
  covered : ∀ a ∈ k.entries, ∃ root ∈ k.roots, root.Covers a.path.text

/-- What becomes of a path. One that no pass visits is passed over. -/
def fate (c : Cell) : Standing :=
  match k.entries.find? fun a => c == .text a.path.text with
  | some a => standing k.tree k.volume k.start a
  | none => .passed

/-- The row is one of the volume, at or below one of the roots. -/
def MayGo (r : Row) : Prop := ∃ root ∈ k.roots, Table.IsOf k.volume root r

/-- What the passes may make of a table. -/
structure Moves (now later : Table) : Prop where
  sound : now.Sound → later.Sound
  counter : now.counter ≤ later.counter
  rows : ∀ c, Moved k.MayGo now.counter (k.fate c) (now.rowOf? c) (later.rowOf? c)

/-- The row stands at the path, and it is what the path comes to. -/
def Settled (now : Table) (c : Cell) (r : Row) : Prop :=
  now.rowOf? c = some r ∧ (k.fate c).Fits r

/-- The number is one of a row that stays. -/
def Confirms (now : Table) (id : Int) : Prop :=
  ∃ r ∈ now.rows, r.id = id ∧ k.fate (r.cells .path) ≠ .passed

/-- No row has the number, or one that may go. -/
def Stray (now : Table) (id : Int) : Prop :=
  id ≤ now.counter ∧
    ∀ r ∈ now.rows, r.id = id → k.fate (r.cells .path) = .passed ∧ k.MayGo r

/-- The call writes the row of a path, or it finds it as it is on disk. -/
inductive Settles (c : Cell) : Call → Prop
  | written {ops : List Operation} {ids : List (Option Int)} {record : Record}
      (hOp : .upsert record ∈ ops) (hPath : record.cells .path = c) :
      Settles c (.submit ops (.ok ids))
  | confirmed {a : Attributes} {entry : Entry} (ha : a ∈ k.entries) (hPath : c = .text a.path.text)
      (hFresh : freshness a (some entry) = .unchanged entry) :
      Settles c (.lookup k.volume a.path (.ok (some entry)))

/-- What may come about: the table moves on, and a call that settles a path leaves the row there
that it comes to. -/
structure Leads (m m' : Moment) : Prop where
  moves : k.Moves m.now m'.now
  calls : m.calls ⊆ m'.calls
  settled : ∀ call ∈ m'.calls, call ∉ m.calls → ∀ c, k.Settles c call →
    ∃ r, k.Settled m'.now c r

def begin : Moment := ⟨[], k.start⟩

variable {k} {now later last : Table} {m m' m'' : Moment} {c : Cell} {r : Row} {id : Int}

theorem fate_of_mem (hk : k.IsSound) {a : Attributes} (ha : a ∈ k.entries) :
    k.fate (.text a.path.text) = standing k.tree k.volume k.start a := by
  have hSome : (k.entries.find? fun b => Cell.text a.path.text == .text b.path.text).isSome := by
    rw [List.find?_isSome]
    exact ⟨a, ha, beq_self_eq_true _⟩
  obtain ⟨b, hFind⟩ := Option.isSome_iff_exists.mp hSome
  have hText := List.find?_some hFind
  have hSame := hk.distinct a ha b (List.mem_of_find?_eq_some hFind)
    (Cell.text.inj (beq_iff_eq.mp hText))
  rw [fate, hFind, hSame]

theorem exists_entry_of_fate (h : k.fate c ≠ .passed) :
    ∃ a ∈ k.entries, c = .text a.path.text := by
  cases hFind : k.entries.find? fun a => c == .text a.path.text with
  | none => exact absurd (by rw [fate, hFind]) h
  | some a =>
    have hText := List.find?_some hFind
    exact ⟨a, List.mem_of_find?_eq_some hFind, beq_iff_eq.mp hText⟩

/-! ## Tables that move on -/

theorem Moves.refl (now : Table) : k.Moves now now := ⟨id, Int.le_refl _, fun _ => .same⟩

theorem Moves.trans (h : k.Moves now later) (h' : k.Moves later last) : k.Moves now last where
  sound hNow := h'.sound (h.sound hNow)
  counter := Int.le_trans h.counter h'.counter
  rows c := (h.rows c).trans (h'.rows c) h.counter

theorem Moves.settled (h : k.Moves now later) (hRow : k.Settled now c r) : k.Settled later c r := by
  have hMoved := h.rows c
  rw [hRow.1] at hMoved
  exact ⟨hMoved.eq_of_fits hRow.2, hRow.2⟩

theorem Moves.confirms (h : k.Moves now later) (hNow : now.Sound) (hId : k.Confirms now id) :
    k.Confirms later id := by
  obtain ⟨r, hr, rfl, hFate⟩ := hId
  have hMoved := h.rows (r.cells .path)
  rw [hNow.rowOf?_of_mem hr] at hMoved
  obtain ⟨r', hRow, hSame⟩ := hMoved.exists_row hFate
  obtain ⟨hr', hPath⟩ := Table.mem_of_rowOf?_eq_some hRow
  exact ⟨r', hr', hSame, hPath ▸ hFate⟩

/-- A row with a number that was in use before stood at its path before; if the path is passed over
it is the same row. -/
theorem Moves.exists_old (h : k.Moves now later) (hLater : later.Sound) (hr : r ∈ later.rows)
    (hId : r.id ≤ now.counter) : ∃ o ∈ now.rows, o.id = r.id ∧ o.cells .path = r.cells .path ∧
      (k.fate (r.cells .path) = .passed → o = r) := by
  have hMoved := h.rows (r.cells .path)
  rw [hLater.rowOf?_of_mem hr] at hMoved
  obtain ⟨o, hOld, hSame⟩ := hMoved.exists_old hId
  obtain ⟨ho, hPath⟩ := Table.mem_of_rowOf?_eq_some hOld
  refine ⟨o, ho, hSame, hPath, fun hPassed => ?_⟩
  rw [hPassed, hOld] at hMoved
  cases hMoved
  rfl

theorem Moves.stray (h : k.Moves now later) (hNow : now.Sound) (hId : k.Stray now id) :
    k.Stray later id := by
  refine ⟨Int.le_trans hId.1 h.counter, ?_⟩
  rintro r hr rfl
  obtain ⟨o, ho, hSame, hPath, hOld⟩ := h.exists_old (h.sound hNow) hr hId.1
  obtain ⟨hFate, hGo⟩ := hId.2 o ho hSame
  rw [hPath] at hFate
  exact ⟨hFate, hOld hFate ▸ hGo⟩

/-- A number that is no longer in use is never used again. -/
theorem Moves.absent (h : k.Moves now later) (hNow : now.Sound) (hLe : id ≤ now.counter)
    (hId : ∀ r ∈ now.rows, r.id ≠ id) : ∀ r ∈ later.rows, r.id ≠ id := by
  rintro r hr rfl
  obtain ⟨o, ho, hSame, -⟩ := h.exists_old (h.sound hNow) hr hLe
  exact hId o ho hSame

/-! ## Batches -/

/-- What a pass may submit: a record that is taken in for a path, and a number that is stray. -/
inductive Permits (k : Concert) (now : Table) : Operation → Prop
  | upsert {record : Record} (h : k.fate (record.cells .path) = .taken record) :
      Permits k now (.upsert record)
  | delete {id : Int} (h : k.Stray now id) : Permits k now (.delete id)

theorem Moves.permits {op : Operation} (h : k.Moves now later) (hNow : now.Sound)
    (hPermits : k.Permits now op) : k.Permits later op := by
  cases hPermits with
  | upsert hFate => exact .upsert hFate
  | delete hStray => exact .delete (h.stray hNow hStray)

/-- What a permitted operation leaves: a record has settled its path, and it tells the number of the
row; a number that is deleted is no longer in use. -/
inductive Done (k : Concert) (later : Table) : Operation → Option Int → Prop
  | upsert {record : Record} {r : Row} (h : k.Settled later (record.cells .path) r) :
      Done k later (.upsert record) (some r.id)
  | delete {id : Int} (hLe : id ≤ later.counter) (hAbsent : ∀ r ∈ later.rows, r.id ≠ id) :
      Done k later (.delete id) none

theorem Moves.done {op : Operation} {result : Option Int} (h : k.Moves now later)
    (hNow : now.Sound) (hDone : k.Done now op result) : k.Done later op result := by
  cases hDone with
  | upsert hRow => exact .upsert (h.settled hRow)
  | delete hLe hAbsent =>
    exact .delete (Int.le_trans hLe h.counter) (h.absent hNow hLe hAbsent)

theorem moves_of_effect {op : Operation} {result : Option Int} {clock : String}
    (h : Table.Effect clock now later op result) (hPermits : k.Permits now op)
    (hFit : op.unfit? = none) : k.Moves now later ∧ k.Done later op result := by
  cases hPermits with
  | @upsert record hFate =>
    have hWrites := h.writes
    obtain ⟨row, hRow, hCells, hInherits⟩ := hWrites.written record List.mem_cons_self
    obtain ⟨id, hNumber, rfl⟩ := h.eq_numberOf?
    obtain rfl : row.id = id := by simpa [Table.numberOf?, hRow] using hNumber
    refine ⟨⟨fun _ => hWrites.sound, hWrites.counter_le, fun c => ?_⟩, .upsert ⟨hRow, ?_⟩⟩
    · by_cases hPath : c = Table.pathOf record
      · rw [hPath, hRow, Table.pathOf, hFate]
        exact .written (Media.firstUnbound?_eq_none_iff.mp hFit) hCells hInherits
      · rw [hWrites.others c fun other hOther hSame =>
          hPath (hSame.symm.trans (congrArg Table.pathOf (List.mem_singleton.mp hOther)))]
        exact .same
    · rw [hFate]
      exact hCells
  | @delete id hStray =>
    cases h with
    | deleted hSound hRows hCounter =>
      refine ⟨⟨fun _ => hSound, by omega, fun c => ?_⟩, .delete (hCounter ▸ hStray.1) ?_⟩
      · rw [hRows]
        cases hOld : now.rowOf? c with
        | none => exact .same
        | some r =>
          obtain ⟨hr, hPath⟩ := Table.mem_of_rowOf?_eq_some hOld
          by_cases hId : r.id = id
          · obtain ⟨hFate, hGo⟩ := hStray.2 r hr hId
            rw [← hPath, hFate]
            simpa [Option.filter, hId] using .gone hGo
          · simpa [Option.filter, hId] using .same
      · intro r hr hId
        have hRow := hSound.rowOf?_of_mem hr
        rw [hRows, Option.filter_eq_some_iff, decide_eq_true_eq] at hRow
        exact hRow.2 hId

/-- A batch of what a pass may submit moves the table on. -/
theorem moves_of_applyAll {barrier : Option Catalog.StoreFault} {clock : String}
    {ops : List Operation} {ids : List (Option Int)} (hNow : now.Sound)
    (hPermits : ∀ op ∈ ops, k.Permits now op)
    (hApply : now.applyAll barrier clock ops = .ok (later, ids)) :
    k.Moves now later ∧ (∀ op ∈ ops, ∃ result ∈ ids, k.Done later op result) ∧
      ∀ result ∈ ids, ∃ op ∈ ops, k.Done later op result := by
  induction ops generalizing now ids with
  | nil =>
    simp only [Table.applyAll, Except.ok.injEq, Prod.mk.injEq] at hApply
    obtain ⟨rfl, rfl⟩ := hApply
    exact ⟨.refl _, by simp, by simp⟩
  | cons op ops ih =>
    obtain ⟨between, result, rest, hOne, hRest, rfl⟩ := Table.applyAll_cons_eq_ok hApply
    obtain ⟨hFirst, hOthers⟩ := List.forall_mem_cons.mp hPermits
    have hEffect := hNow.effect_applyOne hOne
    obtain ⟨hMoves, hDone⟩ :=
      moves_of_effect hEffect hFirst (Table.unfit?_eq_none_of_applyOne hOne)
    obtain ⟨hMore, hOps, hIds⟩ := ih hEffect.sound
      (fun other hOther => hMoves.permits hNow (hOthers other hOther)) hRest
    have hHere := hMore.done hEffect.sound hDone
    refine ⟨hMoves.trans hMore, ?_, ?_⟩
    · rintro other (_ | ⟨_, hOther⟩)
      · exact ⟨result, List.mem_cons_self, hHere⟩
      · obtain ⟨found, hFound, hOp⟩ := hOps other hOther
        exact ⟨found, List.mem_cons_of_mem _ hFound, hOp⟩
    · rintro found (_ | ⟨_, hFound⟩)
      · exact ⟨op, List.mem_cons_self, hHere⟩
      · obtain ⟨other, hOther, hOp⟩ := hIds found hFound
        exact ⟨other, List.mem_cons_of_mem _ hOther, hOp⟩

/-! ## What may come about -/

theorem Leads.refl (m : Moment) : k.Leads m m :=
  ⟨.refl m.now, List.Subset.refl _, fun _ hCall hNew => absurd hCall hNew⟩

theorem Leads.trans (h : k.Leads m m') (h' : k.Leads m' m'') : k.Leads m m'' where
  moves := h.moves.trans h'.moves
  calls := List.Subset.trans h.calls h'.calls
  settled call hCall hNew c hSettles := by
    by_cases hOld : call ∈ m'.calls
    · obtain ⟨r, hRow⟩ := h.settled call hOld hNew c hSettles
      exact ⟨r, h'.moves.settled hRow⟩
    · exact h'.settled call hCall hOld c hSettles

/-- A call leads on if it moves the table on and leaves what it settles. -/
theorem leads_after {call : Call} (hMoves : k.Moves m.now later)
    (hSettled : ∀ c, k.Settles c call → ∃ r, k.Settled later c r) :
    k.Leads m (m.after call later) where
  moves := hMoves
  calls := List.subset_append_left _ _
  settled other hOther hNew := by
    rcases List.mem_append.mp hOther with hOld | hCall
    · exact absurd hOld hNew
    · rw [List.mem_singleton.mp hCall]
      exact hSettled

/-- What was settled since the start has stayed so. -/
theorem Leads.exists_settled (h : k.Leads k.begin m) {call : Call} (hCall : call ∈ m.calls)
    (hSettles : k.Settles c call) : ∃ r, k.Settled m.now c r :=
  h.settled call hCall List.not_mem_nil c hSettles

/-! ## Entries that are looked at -/

/-- An entry that a pass looks at stands as it did in the beginning, unless its record was written
meanwhile: then its row is kept. -/
theorem standing_of_moves (hk : k.IsSound) (h : k.Moves k.start now) {a : Attributes}
    (ha : a ∈ k.entries) :
    standing k.tree k.volume now a = k.fate (.text a.path.text) ∨
      ∃ r, k.Settled now (.text a.path.text) r ∧
        standing k.tree k.volume now a = .kept ⟨r.id, r.cells .size, r.cells .dateModified⟩ := by
  have hNow := h.sound hk.start
  have hMoved := h.rows (.text a.path.text)
  have hFate := fate_of_mem hk ha
  generalize hRow : now.rowOf? (.text a.path.text) = row at hMoved
  generalize hOld : k.start.rowOf? (.text a.path.text) = old at hMoved
  generalize hStanding : k.fate (.text a.path.text) = fate at hMoved
  cases hMoved with
  | same =>
    left
    rw [← hStanding, hFate]
    exact standing_congr hk.start hNow (hRow.trans hOld.symm)
  | @written record old row hStorable hCells hInherits =>
    have hTaken := hFate.symm.trans hStanding
    refine .inr ⟨row, ⟨hRow, ?_⟩, kept_of_written hNow hTaken hStorable hRow hCells⟩
    rw [hStanding]
    exact hCells
  | gone hGo =>
    left
    have hPassed := hFate.symm.trans hStanding
    rw [← hPassed]
    apply standing_of_lookup_eq_none
    · rw [hPassed]
      exact fun entry hKept => by cases hKept
    · rw [hNow.lookup_eq, hRow]
      rfl

section

variable {a : Attributes} (hk : k.IsSound) (h : k.Moves k.start now) (ha : a ∈ k.entries)

include hk h ha

theorem fate_of_passed (hPassed : standing k.tree k.volume now a = .passed) :
    k.fate (.text a.path.text) = .passed := by
  rcases standing_of_moves hk h ha with hSame | ⟨r, -, hKept⟩
  · rw [← hSame, hPassed]
  · rw [hPassed] at hKept
    cases hKept

theorem fate_of_taken {record : Record} (hTaken : standing k.tree k.volume now a = .taken record) :
    k.fate (.text a.path.text) = .taken record := by
  rcases standing_of_moves hk h ha with hSame | ⟨r, -, hKept⟩
  · rw [← hSame, hTaken]
  · rw [hTaken] at hKept
    cases hKept

theorem settled_of_kept {entry : Entry} (hKept : standing k.tree k.volume now a = .kept entry) :
    ∃ r, k.Settled now (.text a.path.text) r ∧ r.id = entry.id := by
  rcases standing_of_moves hk h ha with hSame | ⟨r, hRow, hOther⟩
  · obtain ⟨r, hRow, -, hId⟩ := row_of_kept (h.sound hk.start) hKept
    refine ⟨r, ⟨hRow, ?_⟩, hId⟩
    rw [← hSame, hKept]
    trivial
  · rw [hKept, Standing.kept.injEq] at hOther
    exact ⟨r, hRow, hOther ▸ rfl⟩

end

/-! ## The end -/

/-- All passes are done: no row is left that had to go, and whatever is not passed over has been
settled by a call. -/
structure Ended (k : Concert) (m : Moment) : Prop where
  since : k.Leads k.begin m
  swept : ∀ r ∈ m.now.rows, k.MayGo r → k.fate (r.cells .path) ≠ .passed
  done : ∀ a ∈ k.entries, k.fate (.text a.path.text) ≠ .passed →
    ∃ call ∈ m.calls, k.Settles (.text a.path.text) call

section

variable (h : k.Ended m)

include h

theorem Ended.exists_settled (hFate : k.fate c ≠ .passed) : ∃ r, k.Settled m.now c r := by
  obtain ⟨a, ha, rfl⟩ := exists_entry_of_fate hFate
  obtain ⟨call, hCall, hSettles⟩ := h.done a ha hFate
  exact h.since.exists_settled hCall hSettles

theorem Ended.rowOf?_iff_of_passed (hFate : k.fate c = .passed) :
    m.now.rowOf? c = some r ↔ k.start.rowOf? c = some r ∧ ¬ k.MayGo r := by
  have hMoved : Moved k.MayGo k.start.counter (k.fate c) (k.start.rowOf? c) (m.now.rowOf? c) :=
    h.since.moves.rows c
  rw [hFate] at hMoved
  constructor
  · intro hRow
    obtain ⟨hr, hPath⟩ := Table.mem_of_rowOf?_eq_some hRow
    refine ⟨?_, fun hGo => h.swept r hr hGo (hPath ▸ hFate)⟩
    rw [hRow] at hMoved
    generalize k.start.rowOf? c = old at hMoved
    cases hMoved
    rfl
  · rintro ⟨hOld, hStays⟩
    rw [hOld] at hMoved
    generalize m.now.rowOf? c = new at hMoved
    cases hMoved with
    | same => rfl
    | gone hGo => exact absurd hGo hStays

theorem Ended.rowOf?_of_kept {entry : Entry} (hFate : k.fate c = .kept entry) :
    m.now.rowOf? c = k.start.rowOf? c := by
  have hMoved : Moved k.MayGo k.start.counter (k.fate c) (k.start.rowOf? c) (m.now.rowOf? c) :=
    h.since.moves.rows c
  rw [hFate] at hMoved
  generalize m.now.rowOf? c = new at hMoved ⊢
  cases hMoved
  rfl

variable (hk : k.IsSound)

include hk

theorem Ended.sound : m.now.Sound := h.since.moves.sound hk.start

/-- Wherever they end, passes in concert leave the same but for numbers and dates. -/
theorem Ended.perm_cells (h' : k.Ended m') :
    (m'.now.rows.map (·.cells)).Perm (m.now.rows.map (·.cells)) := by
  refine (h.sound hk).perm_cells (h'.sound hk) fun c => ?_
  cases hFate : k.fate c with
  | kept entry => rw [h.rowOf?_of_kept hFate, h'.rowOf?_of_kept hFate]
  | taken record =>
    have hOther : k.fate c ≠ .passed := by simp [hFate]
    obtain ⟨r, hRow, hFits⟩ := h.exists_settled hOther
    obtain ⟨r', hRow', hFits'⟩ := h'.exists_settled hOther
    rw [hFate] at hFits hFits'
    rw [hRow, hRow', Option.map_some, Option.map_some, show r.cells = record.cells from hFits,
      show r'.cells = record.cells from hFits']
  | passed =>
    have hSame : m'.now.rowOf? c = m.now.rowOf? c := by
      ext r
      rw [h.rowOf?_iff_of_passed hFate, h'.rowOf?_iff_of_passed hFate]
    rw [hSame]

theorem Ended.mayGo_of_settled (hRow : k.Settled m.now c r) : k.MayGo r := by
  obtain ⟨hRow, hFits⟩ := hRow
  obtain ⟨a, ha, rfl⟩ := exists_entry_of_fate hFits.ne_passed
  obtain ⟨root, hRoot, hCovers⟩ := hk.covered a ha
  refine ⟨root, hRoot, ?_, a.path.text, (Table.mem_of_rowOf?_eq_some hRow).2, hCovers⟩
  have hStanding := fate_of_mem hk ha
  cases hFate : k.fate (.text a.path.text) with
  | kept entry =>
    rw [h.rowOf?_of_kept hFate] at hRow
    obtain ⟨o, hOld, hVolume, -⟩ := row_of_kept hk.start (hStanding.symm.trans hFate)
    rw [hRow, Option.some.injEq] at hOld
    exact hOld ▸ hVolume
  | taken record =>
    rw [hFate] at hFits
    rw [show r.cells = record.cells from hFits]
    exact volumeName_of_taken (hStanding.symm.trans hFate)
  | passed => exact absurd hFate hFits.ne_passed

/-- The rows that are left of those that might go are the ones that have been settled. -/
theorem Ended.exists_row_iff : (∃ r ∈ m.now.rows, k.MayGo r ∧ r.cells .path = c) ↔
    ∃ call ∈ m.calls, k.Settles c call := by
  constructor
  · rintro ⟨r, hr, hGo, rfl⟩
    have hFate := h.swept r hr hGo
    obtain ⟨a, ha, hPath⟩ := exists_entry_of_fate hFate
    rw [hPath] at hFate ⊢
    exact h.done a ha hFate
  · rintro ⟨call, hCall, hSettles⟩
    obtain ⟨r, hRow⟩ := h.since.exists_settled hCall hSettles
    obtain ⟨hr, hPath⟩ := Table.mem_of_rowOf?_eq_some hRow.1
    exact ⟨r, hr, h.mayGo_of_settled hk hRow, hPath⟩

end

end Concert

end Reconcile

end MediaIndex
