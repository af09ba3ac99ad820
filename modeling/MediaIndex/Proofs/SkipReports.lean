import MediaIndex.Proofs.Failures
import MediaIndex.Proofs.PassTallies

/-!
# Files told as skipped

A visit tells of a file as skipped if its row is not as on disk and its extractor failed, and nothing
else that a pass does tells of one: an extraction that succeeds does not, and neither do the queue,
the flushes and the sweep. So what a pass over someone who asked tells as skipped are the entries in
trouble, once each and in the order of the walk.
-/

namespace MediaIndex

open Catalog (Operation Table)
open Disk (Attributes Tree)
open Walk (Event)

def Note.skip? : Note → Option (Path × Media.Failure)
  | skipped path failure => some (path, failure)
  | line _ _ => none

def skips (notes : List Note) : List (Path × Media.Failure) := notes.filterMap Note.skip?

@[simp] theorem skips_nil : skips [] = [] := rfl

@[simp] theorem skips_append (notes more : List Note) :
    skips (notes ++ more) = skips notes ++ skips more :=
  List.filterMap_append

/-! ## Extractions -/

namespace Media

variable {t : Tree} {a : Attributes} {volume : String}

/-- What went wrong where the extractor of the category of an entry failed. -/
def trouble? (t : Tree) (a : Attributes) (volume : String) : Option Failure :=
  match categoryOf? a.path.name a.isDirectory with
  | none => none
  | some category => match extract t category (sourceOf a volume) with
    | .ok _ => none
    | .error failure => some failure

theorem skips_imageColumns {s : Source} {tags : PictureTags} {width height : Value}
    {extraction : Extraction} (h : imageColumns s tags width height = .ok extraction) :
    skips extraction.notes = [] := by
  simp only [imageColumns, bind_eq_ok_iff] at h
  obtain ⟨_, -, _, -, _, -, _, -, h⟩ := h
  rw [← Except.ok.inj h]
  rfl

theorem skips_extract {category : Category} {s : Source} {extraction : Extraction}
    (h : extract t category s = .ok extraction) : skips extraction.notes = [] := by
  cases category with
  | directory =>
    rw [← Except.ok.inj h]
    rfl
  | playlist =>
    rw [← Except.ok.inj h]
    rfl
  | audio =>
    simp only [extract, extractAudio, bind_eq_ok_iff] at h
    obtain ⟨found, -, h⟩ := h
    cases found with
    | none => cases h
    | some stream =>
      obtain ⟨record, -, h⟩ := bind_eq_ok_iff.mp h
      rw [← Except.ok.inj h]
      rfl
  | video =>
    simp only [extract, extractVideo, bind_eq_ok_iff] at h
    obtain ⟨tracks, -, h⟩ := h
    split at h
    · obtain ⟨record, -, h⟩ := bind_eq_ok_iff.mp h
      rw [← Except.ok.inj h]
      rfl
    · cases h
  | image =>
    obtain ⟨tags, width, height, -, hColumns⟩ := extractImage_eq_ok h
    exact skips_imageColumns hColumns

/-- Taking in an entry tells of it as skipped exactly if its extractor failed. -/
theorem skips_takeIn {intake : Intake} (h : takeIn t true a volume = .ok intake) :
    skips intake.notes = ((trouble? t a volume).map (a.path, ·)).toList := by
  unfold takeIn at h
  unfold trouble? sourceOf
  cases hCategory : categoryOf? a.path.name a.isDirectory with
  | none =>
    simp only [hCategory] at h
    split at h <;> cases h <;> rfl
  | some category =>
    simp only [hCategory] at h ⊢
    split at h
    · next extraction hExtract =>
      cases h
      rw [hExtract]
      exact skips_extract hExtract
    · cases h
    · next failure _ hExtract =>
      cases h
      rw [hExtract]
      rfl

/-- A record is taken in exactly if the entry has a category and its extractor does not fail. -/
theorem isSome_recordOf?_iff : (recordOf? t a volume).isSome = true ↔
    (categoryOf? a.path.name a.isDirectory).isSome = true ∧ trouble? t a volume = none := by
  unfold trouble?
  constructor
  · intro h
    obtain ⟨record, hRecord⟩ := Option.isSome_iff_exists.mp h
    obtain ⟨category, extraction, hCategory, hExtract, -⟩ := exists_extract_of_recordOf? hRecord
    refine ⟨by rw [hCategory, Option.isSome_some], ?_⟩
    simp only [hCategory, hExtract]
  · rintro ⟨hSome, hTrouble⟩
    obtain ⟨category, hCategory⟩ := Option.isSome_iff_exists.mp hSome
    simp only [hCategory] at hTrouble
    split at hTrouble
    · next extraction hExtract =>
      rw [recordOf?, takeIn_of_extract hCategory hExtract]
      rfl
    · cases hTrouble

end Media

/-! ## Stages that tell of no skipped file -/

namespace Reconcile

namespace Dialogue

variable {α β : Type}

/-- The dialogue tells of no skipped file. -/
def IsDiscreet (d : Dialogue α) : Prop := d.Accounts fun _ notes _ => skips notes = []

theorem isDiscreet_finish (a : α) : (finish a).IsDiscreet := accounts_finish rfl

theorem IsDiscreet.tell {d : Dialogue α} (h : d.IsDiscreet) (level : Level) (text : String) :
    (tell (.line level text) d).IsDiscreet :=
  accounts_tell (Accounts.mono h fun _ _ _ hNone => hNone)

theorem IsDiscreet.andThen {d : Dialogue α} {f : α → Dialogue β} (h : d.IsDiscreet)
    (hNext : ∀ a, (f a).IsDiscreet) : (d.andThen f).IsDiscreet := by
  refine accounts_andThen (Accounts.mono h fun calls notes a hNone => ?_)
  refine Accounts.mono (hNext a) fun more others b hRest => ?_
  rw [skips_append, hNone, hRest, List.append_nil]

end Dialogue

theorem Queue.isDiscreet_flush (q : Queue) : q.flush.IsDiscreet := by
  unfold flush
  split
  · exact Dialogue.isDiscreet_finish _
  · apply Dialogue.accounts_submit
    intro s
    cases (s.submit q.pending).1 with
    | ok ids => exact (Dialogue.isDiscreet_finish _).tell _ _
    | error cause =>
      cases cause with
      | batch size fault => exact (Dialogue.isDiscreet_finish _).tell _ _
      | _ => exact Dialogue.isDiscreet_finish _

theorem Queue.isDiscreet_add (q : Queue) (op : Operation) : (q.add op).IsDiscreet := by
  simp only [add]
  split
  · exact Queue.isDiscreet_flush _
  · exact Dialogue.isDiscreet_finish _

namespace Pass

theorem isDiscreet_andThen {d : Dialogue Progress} {next : Pass → Dialogue Progress}
    (h : d.IsDiscreet) (hNext : ∀ p, (next p).IsDiscreet) :
    (Progress.andThen d next).IsDiscreet := by
  refine h.andThen fun progress => ?_
  split
  · exact hNext _
  · exact Dialogue.isDiscreet_finish _

theorem isDiscreet_enqueue (p : Pass) (op : Operation) (count : Tally → Tally) :
    (p.enqueue op count).IsDiscreet := by
  refine (p.queue.isDiscreet_add op).andThen fun progress => ?_
  dsimp only
  split <;> exact Dialogue.isDiscreet_finish _

theorem isDiscreet_flush (p : Pass) : p.flush.IsDiscreet :=
  p.queue.isDiscreet_flush.andThen fun _ => Dialogue.isDiscreet_finish _

theorem isDiscreet_clean (ids : List Int) (p : Pass) : (clean ids p).IsDiscreet := by
  induction ids generalizing p with
  | nil => exact Dialogue.isDiscreet_finish _
  | cons id ids ih =>
    rw [clean]
    split
    · exact ih p
    · exact (isDiscreet_andThen (p.isDiscreet_enqueue _ _) ih).tell _ _

theorem isDiscreet_sweep (p : Pass) : p.sweep.IsDiscreet := by
  apply Dialogue.accounts_idsUnder
  intro reply
  cases reply with
  | error fault => exact Dialogue.isDiscreet_finish _
  | ok ids => exact isDiscreet_andThen (isDiscreet_clean ids p) isDiscreet_flush

theorem isDiscreet_finish (p : Pass) : p.finish.IsDiscreet :=
  isDiscreet_andThen (isDiscreet_sweep _) fun _ => (Dialogue.isDiscreet_finish _).tell _ _

end Pass

/-! ## Visits -/

/-- The entry and what went wrong with it, if its row is not as on disk and its extractor fails. -/
def skip? (t : Tree) (volume : String) (now : Table) (a : Attributes) :
    Option (Path × Media.Failure) :=
  match freshness a (now.lookup volume a.path) with
  | .unchanged _ => none
  | .stale | .new => (Media.trouble? t a volume).map (a.path, ·)

namespace Dialogue

variable {α β : Type}

theorem run_tellAll (notes : List Note) (d : Dialogue α) (s : Catalog.Store) :
    ((tellAll notes d).run s).notes = notes ++ (d.run s).notes ∧
      ((tellAll notes d).run s).result = (d.run s).result := by
  induction notes with
  | nil => exact ⟨rfl, rfl⟩
  | cons note notes ih => exact ⟨congrArg (List.cons note) ih.1, ih.2⟩

end Dialogue

namespace Pass

variable {t : Tree} {p : Pass} {now before : Table} {s : Catalog.Store} {a : Attributes}

theorem skips_taking (hTold : p.told = true)
    (hGoing : ((taking t p a).run s).result.failure = none) :
    skips ((taking t p a).run s).notes =
      ((Media.trouble? t a p.volume).map (a.path, ·)).toList := by
  unfold taking at hGoing ⊢
  cases hTake : Media.takeIn t p.told a p.volume with
  | error fault =>
    rw [hTake] at hGoing
    cases hGoing
  | ok intake =>
    rw [hTold] at hTake
    simp only [(Dialogue.run_tellAll _ _ _).1, skips_append, Media.skips_takeIn hTake]
    cases intake.record with
    | none => exact List.append_nil _
    | some record =>
      have hDiscreet := isDiscreet_enqueue p (.upsert record) countQueued s
      exact (congrArg (_ ++ ·) hDiscreet).trans (List.append_nil _)

theorem skips_visit (hTold : p.told = true) (hs : s.contents = .table now)
    (hGoing : ((p.visit t a).run s).result.failure = none) :
    skips ((p.visit t a).run s).notes = (skip? t p.volume now a).toList := by
  unfold visit at hGoing ⊢
  simp only [Dialogue.run] at hGoing ⊢
  cases hReply : (s.lookup p.volume a.path).1 with
  | error fault =>
    rw [hReply] at hGoing
    cases hGoing
  | ok found =>
    obtain rfl := query_eq_ok hs hReply
    rw [hReply] at hGoing
    unfold skip?
    cases hFresh : freshness a (now.lookup p.volume a.path) with
    | unchanged entry =>
      simp only [hFresh]
      rfl
    | stale =>
      simp only [hFresh] at hGoing ⊢
      exact skips_taking (p := p.visiting) hTold hGoing
    | new =>
      simp only [hFresh] at hGoing ⊢
      exact skips_taking (p := p.visiting) hTold hGoing

theorem skips_observe (hTold : p.told = true) (hs : s.contents = .table now) {event : Event}
    (hGoing : ((p.observe t event).run s).result.failure = none) :
    skips ((p.observe t event).run s).notes =
      event.visited?.toList.filterMap (skip? t p.volume now) := by
  cases event with
  | visit a =>
    refine (skips_visit hTold hs hGoing).trans ?_
    rw [Event.visited?, Option.toList_some, List.filterMap_cons, List.filterMap_nil]
    cases skip? t p.volume now a <;> rfl
  | hidden path => rfl
  | failed path fault =>
    cases fault with
    | failed r text => rfl
    | interrupted => cases hGoing
  | leave path => rfl

/-! ## The walk -/

theorem told_resumed (p : Pass) (queue : Queue.Progress) (count : Tally → Tally) :
    (p.resumed queue count).pass.told = p.told := by
  unfold resumed
  split <;> rfl

theorem Observes.told {event : Event} {after : Table} {calls : List Call} {progress : Progress}
    (h : Observes t event p now calls progress after) : progress.pass.told = p.told := by
  cases h with
  | visit hVisits =>
    cases hVisits with
    | taken hTaken hEnqueues =>
      cases hEnqueues with
      | intro hSubmits => exact told_resumed _ _ _
    | _ => rfl
  | _ => rfl

/-- If a stage and the next one come to their ends, their notes stand one after the other. -/
theorem run_andThen_of_going {d : Dialogue Progress} {next : Pass → Dialogue Progress}
    (hGoing : ((Progress.andThen d next).run s).result.failure = none) :
    (d.run s).result.failure = none ∧
      (Progress.andThen d next).run s =
        { (next (d.run s).result.pass).run (d.run s).store with
          notes := (d.run s).notes ++
            ((next (d.run s).result.pass).run (d.run s).store).notes } := by
  rw [Progress.andThen, Dialogue.run_andThen] at hGoing ⊢
  cases hFailure : (d.run s).result.failure with
  | none => exact ⟨rfl, rfl⟩
  | some failure =>
    simp only [hFailure] at hGoing
    exact absurd (hFailure.symm.trans hGoing) (by simp)

theorem skip?_eq_of_walked (hBefore : before.Sound) {done : List Attributes} {calls : List Call}
    (h : Walked t p.volume before done calls p.queue now)
    (hFresh : a.path.text ∉ done.map (·.path.text)) :
    skip? t p.volume now a = skip? t p.volume before a := by
  rw [skip?, skip?, h.writes.sound.lookup_eq, hBefore.lookup_eq, h.rowOf?_eq hFresh]

theorem skips_observeAll (hBefore : before.Sound) (hTold : p.told = true)
    (hs : s.contents = .table now) {done : List Attributes} {calls : List Call}
    (h : Walked t p.volume before done calls p.queue now) {events : List Event}
    (hDistinct : ((done ++ events.filterMap Event.visited?).map (·.path.text)).Nodup)
    (hGoing : ((observeAll t events p).run s).result.failure = none) :
    skips ((observeAll t events p).run s).notes =
      (events.filterMap Event.visited?).filterMap (skip? t p.volume before) := by
  -- The ledger is carried along: the row that a visit finds is the one from before the pass.
  induction events generalizing done calls p now s with
  | nil => rfl
  | cons event events ih =>
    have hFresh := not_mem_of_nodup_visited hDistinct
    obtain ⟨hFirst, hRun⟩ := run_andThen_of_going hGoing
    obtain ⟨between, hContents, hObserves⟩ := follows_observe t event p s now hs
    obtain ⟨part, -, hWalked, hAll⟩ := h.observes hBefore hFresh hObserves
    obtain rfl := hAll hFirst
    have hSkips : event.visited?.toList.filterMap (skip? t p.volume now) =
        event.visited?.toList.filterMap (skip? t p.volume before) :=
      List.filterMap_congr fun a ha => skip?_eq_of_walked hBefore h
        (hFresh a (Option.mem_toList.mp ha))
    change ((Progress.andThen (p.observe t event) (observeAll t events)).run s).result.failure =
      none at hGoing
    rw [hRun] at hGoing
    rw [visited_cons, ← List.append_assoc] at hDistinct
    rw [← hObserves.continues.volume] at hWalked
    have hRest := ih (hObserves.told.trans hTold) hContents hWalked hDistinct hGoing
    change skips ((Progress.andThen (p.observe t event) (observeAll t events)).run s).notes = _
    rw [hRun, skips_append, skips_observe hTold hs hFirst, hSkips, hRest,
      hObserves.continues.volume, visited_cons, List.filterMap_append]

theorem skips_explore (hTree : t.WellFormed) (hBefore : before.Sound) (hTold : p.told = true)
    (hs : s.contents = .table before) {size : Int} (hRoot : p.root.IsAbsolute)
    (hQueue : p.queue = .ofSize size)
    (hGoing : ((p.explore t).run s).result.failure = none) :
    skips ((p.explore t).run s).notes =
      (Walk.visits t p.root).filterMap (skip? t p.volume before) := by
  have hNil : Walked t p.volume before [] [] p.queue before := by
    rw [hQueue]
    exact walked_nil hBefore p.volume size
  obtain ⟨hFirst, hRun⟩ := run_andThen_of_going hGoing
  have hFlush := isDiscreet_flush
    ((observeAll t (Walk.walk t p.root) p).run s).result.pass
    ((observeAll t (Walk.walk t p.root) p).run s).store
  have hWalk := skips_observeAll hBefore hTold hs hNil (Walk.nodup_visits_texts hTree hRoot) hFirst
  change skips ((Progress.andThen (observeAll t (Walk.walk t p.root) p) flush).run s).notes = _
  rw [hRun, skips_append, hWalk, hFlush, List.append_nil]
  rfl

end Pass

/-! ## How the entries are told apart -/

/-- The entry has to be looked into, but its name or type gives it no category. -/
def isUnclassified (volume : String) (now : Table) (a : Attributes) : Bool :=
  match freshness a (now.lookup volume a.path) with
  | .unchanged _ => false
  | .stale | .new => (Media.categoryOf? a.path.name a.isDirectory).isNone

theorem trouble?_of_unclassified {t : Tree} {volume : String} {a : Attributes}
    (h : Media.categoryOf? a.path.name a.isDirectory = none) :
    Media.trouble? t a volume = none := by
  simp only [Media.trouble?, h]

/-- What becomes of an entry, told four times. -/
def Sorts (t : Tree) (volume : String) (before : Table) (a : Attributes)
    (kept taken skipped unclassified : Bool) : Prop :=
  (standing t volume before a).isKept = kept ∧ (standing t volume before a).isTaken = taken ∧
    (skip? t volume before a).isSome = skipped ∧ isUnclassified volume before a = unclassified

/-- An entry is either kept, taken in, told as skipped or without a category. -/
theorem sorts (t : Tree) (volume : String) (before : Table) (a : Attributes) :
    Sorts t volume before a true false false false ∨ Sorts t volume before a false true false false ∨
      Sorts t volume before a false false true false ∨
      Sorts t volume before a false false false true := by
  unfold Sorts skip? isUnclassified standing
  cases freshness a (before.lookup volume a.path) with
  | unchanged entry => exact .inl ⟨rfl, rfl, rfl, rfl⟩
  | stale | new =>
    right
    have hSome := @Media.isSome_recordOf?_iff t a volume
    cases hRecord : Media.recordOf? t a volume with
    | some record =>
      obtain ⟨hCategory, hTrouble⟩ := hSome.mp (by rw [hRecord, Option.isSome_some])
      left
      simp [hTrouble, Option.isNone_eq_false_iff.mpr hCategory, Standing.isKept, Standing.isTaken]
    | none =>
      right
      cases hCategory : Media.categoryOf? a.path.name a.isDirectory with
      | none =>
        right
        simp [trouble?_of_unclassified hCategory, Standing.isKept, Standing.isTaken]
      | some category =>
        have hTrouble : Media.trouble? t a volume ≠ none := by
          intro hNone
          have hFound := hSome.mpr ⟨by rw [hCategory, Option.isSome_some], hNone⟩
          rw [hRecord] at hFound
          cases hFound
        left
        simp [Option.isSome_iff_ne_none.mpr hTrouble, Standing.isKept, Standing.isTaken]

/-- Each entry is kept, taken in, told as skipped or without a category. -/
theorem length_eq_of_standings (t : Tree) (volume : String) (before : Table)
    (entries : List Attributes) :
    entries.length = entries.countP (fun a => (standing t volume before a).isKept) +
      entries.countP (fun a => (standing t volume before a).isTaken) +
      (entries.filterMap (skip? t volume before)).length +
      entries.countP (isUnclassified volume before) := by
  induction entries with
  | nil => rfl
  | cons a entries ih =>
    have hLength : ((a :: entries).filterMap (skip? t volume before)).length =
        (if (skip? t volume before a).isSome then 1 else 0) +
          (entries.filterMap (skip? t volume before)).length := by
      rw [List.filterMap_cons]
      cases skip? t volume before a with
      | none => simp
      | some skip => simp [Nat.add_comm]
    simp only [List.length_cons, List.countP_cons, hLength]
    rcases sorts t volume before a with ⟨h₁, h₂, h₃, h₄⟩ | ⟨h₁, h₂, h₃, h₄⟩ | ⟨h₁, h₂, h₃, h₄⟩ |
      ⟨h₁, h₂, h₃, h₄⟩ <;> simp only [h₁, h₂, h₃, h₄] <;> simp <;> omega

end Reconcile

end MediaIndex
