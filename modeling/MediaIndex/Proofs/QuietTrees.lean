import MediaIndex.Proofs.EntryStarts

/-!
# Clear trees are quiet

In a clear tree a lookup fails only because what it looks for is not there, so nothing that a pass
does on the disk is interrupted, and whatever a walk visits can itself be examined.
-/

namespace MediaIndex

theorem bind_ne_error {ε α β : Type} {x : Except ε α} {f : α → Except ε β} {e : ε}
    (h : x ≠ .error e) (hRest : ∀ a, x = .ok a → f a ≠ .error e) : (x >>= f) ≠ .error e := by
  cases x with
  | error other =>
    intro hEq
    exact h (congrArg Except.error (Except.error.inj hEq))
  | ok a => exact hRest a rfl

namespace Disk.Tree

variable {t : Tree} (h : t.IsClear)

theorem found_ne_interrupted {text : String} {result : Except DeadEnd Place}
    (h : ∀ stop, result = .error stop → stop.obstacle.IsAbsence) :
    t.found text result ≠ .error .interrupted := by
  cases result with
  | error stop =>
    obtain ⟨r, hObstacle, -⟩ := h stop rfl
    simp [found, hObstacle, Obstacle.fault]
  | ok place => cases hNode : t.node? place <;> simp [found, hNode]

include h

theorem IsClear.ownPlace?_absence {names : List String} {stop : DeadEnd}
    (hPlace : t.ownPlace? names = .error stop) : stop.obstacle.IsAbsence := by
  unfold ownPlace? at hPlace
  split at hPlace
  · cases hPlace
  · next last hLast =>
    cases hAbove : t.place? names.dropLast with
    | error other =>
      rw [hAbove] at hPlace
      obtain rfl := Except.error.inj hPlace
      exact h.place?_absence hAbove
    | ok above =>
      rw [hAbove] at hPlace
      cases hEnter : t.enter above last with
      | error obstacle =>
        simp only [bind, Except.bind, hEnter, Except.mapError] at hPlace
        obtain rfl := Except.error.inj hPlace
        exact h.enter hEnter
      | ok place => simp [bind, Except.bind, hEnter, Except.mapError] at hPlace

theorem IsClear.locate_ne_interrupted (p : Path) : t.locate p ≠ .error .interrupted :=
  found_ne_interrupted fun _ hStop => h.place?_absence hStop

theorem IsClear.stat_ne_interrupted (p : Path) : t.stat p ≠ .error .interrupted := by
  intro hStat
  obtain ⟨r, hFault, -⟩ := h.stat_eq_error hStat
  cases hFault

theorem IsClear.statOwn_eq {p : Path} {target : Place × Node} (hOwn : t.locateOwn p = .ok target) :
    t.statOwn p = .ok target := by
  rw [statOwn, hOwn]
  exact h.readable (found_eq_ok_iff.mp hOwn).2

theorem IsClear.statOwn_ne_interrupted (p : Path) : t.statOwn p ≠ .error .interrupted := by
  have hLocate : t.locateOwn p ≠ .error .interrupted :=
    found_ne_interrupted fun _ hStop => h.ownPlace?_absence hStop
  refine bind_ne_error hLocate fun target hOwn => ?_
  simp [h.readable (found_eq_ok_iff.mp hOwn).2]

theorem IsClear.attributes_ne_interrupted (p : Path) : t.attributes p ≠ .error .interrupted := by
  cases hOwn : t.statOwn p with
  | error fault =>
    intro hInterrupted
    rw [attributes, hOwn] at hInterrupted
    obtain rfl : fault = .interrupted := Except.error.inj hInterrupted
    exact h.statOwn_ne_interrupted p hOwn
  | ok own =>
    obtain ⟨a, hAttributes, -⟩ := h.exists_attributes hOwn
    simp [hAttributes]

theorem IsClear.linksToFile_ne_interrupted (p : Path) : t.linksToFile p ≠ .error .interrupted := by
  have hStat := h.stat_ne_interrupted p
  unfold linksToFile
  split <;> simp_all

theorem IsClear.entry_ne_interrupted (p : Path) (kind : NodeKind) :
    t.entry p kind ≠ .error .interrupted := by
  cases kind with
  | file =>
    exact bind_ne_error (h.statOwn_ne_interrupted p) fun own _ => by simp [pure, Except.pure]
  | directory =>
    exact bind_ne_error (h.statOwn_ne_interrupted p) fun own _ => by simp [pure, Except.pure]
  | link =>
    refine bind_ne_error (h.linksToFile_ne_interrupted p) fun isFile _ => ?_
    cases isFile with
    | true =>
      exact bind_ne_error (h.stat_ne_interrupted p) fun file _ => by simp [pure, Except.pure]
    | false => simp [pure, Except.pure]
  | fifo => simp [entry]
  | socket => simp [entry]
  | device => simp [entry]

theorem IsClear.list_ne_interrupted (p : Path) : t.list p ≠ .error .interrupted := by
  refine bind_ne_error (h.locate_ne_interrupted p) fun target hLocate => ?_
  have hListing := (h.node (found_eq_ok_iff.mp hLocate).2).listing
  simp only [hListing]
  split <;> simp [pure, Except.pure]

theorem IsClear.media_ne_interrupted (p : Path) : t.media p ≠ .error .interrupted :=
  bind_ne_error (h.locate_ne_interrupted p) fun target _ => by simp [pure, Except.pure]

theorem IsClear.openToRead_ne_interrupted (p : Path) : t.openToRead p ≠ .error .interrupted := by
  refine bind_ne_error (h.locate_ne_interrupted p) fun target hLocate => ?_
  have hOpens := (h.node (found_eq_ok_iff.mp hLocate).2).opens
  simp [hOpens]

/-- What stands in a directory can be examined if what it leads to can be. -/
theorem IsClear.exists_statOwn_child {p : Path} {place : Place}
    (hPlace : t.place? p.names = .ok place) {name : String} (hUp : name ≠ "..") {n : Node}
    (hNode : t.node? (place ++ [name]) = some n) {target : Place × Node}
    (hStat : t.stat (p.child name) = .ok target) : ∃ own, t.statOwn (p.child name) = .ok own := by
  obtain ⟨hChild, -⟩ := h.stat_eq_ok_iff.mp hStat
  obtain ⟨links, hFollow⟩ := exists_place?_child hPlace name
  have hEnter : t.enter place name = .ok (place ++ [name]) := by
    rw [hFollow, Tree.follow] at hChild
    cases hEnter : t.enter place name with
    | error obstacle =>
      rw [hEnter] at hChild
      cases hChild
    | ok next => rw [eq_of_enter hUp hEnter]
  refine ⟨(place ++ [name], n), h.statOwn_eq (found_eq_ok_iff.mpr ⟨?_, hNode⟩)⟩
  rw [ownPlace?_child hPlace, hEnter]
  rfl

end Disk.Tree

namespace Media

open Disk (Tree)

variable {t : Tree} (h : t.IsClear)

theorem ofDisk_ne_interrupted {α : Type} {result : Except Disk.Fault α}
    (h : result ≠ .error .interrupted) : Extracted.ofDisk result ≠ .error (.disk .interrupted) := by
  cases result with
  | error fault => simpa [Extracted.ofDisk, Except.mapError] using h
  | ok a => simp [Extracted.ofDisk, Except.mapError]

theorem ofConverted_ne_interrupted {α : Type} (result : Converted α) :
    Extracted.ofConverted result ≠ .error (.disk .interrupted) := by
  cases result <;> simp [Extracted.ofConverted, Except.mapError]

theorem stating_ne_interrupted {α : Type} {state : Failure → Failure} {result : Extracted α}
    (hState : ∀ f, state f ≠ .disk .interrupted) (h : result ≠ .error (.disk .interrupted)) :
    result.stating state ≠ .error (.disk .interrupted) := by
  cases result with
  | error f =>
    have hOther : f.isInterrupt = false := by simpa [Failure.isInterrupt] using h
    simpa [Extracted.stating, Except.mapError, hOther] using hState f
  | ok a => simp [Extracted.stating, Except.mapError]

include h

theorem decode_ne_interrupted {α : Type} (s : Source) (part : Decoded → Part α) :
    s.decode t part ≠ .error (.disk .interrupted) := by
  refine bind_ne_error (ofDisk_ne_interrupted (h.media_ne_interrupted s.path)) fun decoded _ => ?_
  cases part decoded <;> simp [pure, Except.pure, throw, throwThe, MonadExceptOf.throw]

theorem readPicture_ne_interrupted (s : Source) :
    readPicture t s ≠ .error (.disk .interrupted) := by
  refine bind_ne_error (ofDisk_ne_interrupted (h.openToRead_ne_interrupted s.path)) fun _ _ => ?_
  refine bind_ne_error (decode_ne_interrupted h s _) fun tags _ => ?_
  refine bind_ne_error (ofConverted_ne_interrupted _) fun width _ => ?_
  refine bind_ne_error (ofConverted_ne_interrupted _) fun height _ => ?_
  split
  · simp [pure, Except.pure]
  · refine bind_ne_error (decode_ne_interrupted h s _) fun pixels _ => ?_
    exact bind_ne_error (ofConverted_ne_interrupted _) fun size _ => by simp [pure, Except.pure]

theorem extract_ne_interrupted (category : Category) (s : Source) :
    extract t category s ≠ .error (.disk .interrupted) := by
  cases category with
  | directory => simp [extract]
  | playlist => simp [extract]
  | audio =>
    refine bind_ne_error (stating_ne_interrupted (by simp) (decode_ne_interrupted h s _))
      fun found _ => ?_
    cases found with
    | none => simp [throw, throwThe, MonadExceptOf.throw]
    | some stream =>
      exact bind_ne_error (ofConverted_ne_interrupted _) fun _ _ => by simp [pure, Except.pure]
  | video =>
    refine bind_ne_error (stating_ne_interrupted (by simp) (decode_ne_interrupted h s _))
      fun tracks _ => ?_
    split
    · exact bind_ne_error (ofConverted_ne_interrupted _) fun _ _ => by simp [pure, Except.pure]
    · simp [throw, throwThe, MonadExceptOf.throw]
  | image =>
    refine bind_ne_error (stating_ne_interrupted (by simp) (readPicture_ne_interrupted h s))
      fun picture _ => ?_
    exact ofConverted_ne_interrupted _

theorem takeIn_ne_error (told : Bool) (a : Disk.Attributes) (volume : String) (fault : Disk.Fault) :
    takeIn t told a volume ≠ .error fault := by
  intro hFault
  obtain rfl := eq_interrupted_of_takeIn hFault
  unfold takeIn at hFault
  have hExtract := extract_ne_interrupted h
  grind

end Media

namespace Walk

open Disk

variable {t : Tree} (h : t.IsClear)

include h

theorem failed_notMem_listingFaults (p q : Path) : (q, .interrupted) ∉ listingFaults t p := by
  unfold listingFaults
  cases hEntries : t.entries p with
  | error fault =>
    have hQuiet : t.entries p ≠ .error .interrupted :=
      bind_ne_error (h.list_ne_interrupted p) fun _ _ => by simp [pure, Except.pure]
    rw [hEntries] at hQuiet
    simpa using fun _ hFault => hQuiet (congrArg Except.error hFault.symm)
  | ok sights =>
    obtain ⟨listed, -, hSights⟩ := bind_eq_ok_iff.mp hEntries
    intro hMem
    obtain ⟨⟨path, sight⟩, hSight, hFault⟩ := List.mem_filterMap.mp hMem
    obtain rfl : sight = .error .interrupted := by
      cases sight <;> simp_all
    rw [← Except.ok.inj hSights] at hSight
    obtain ⟨name, -, hEntry⟩ := List.mem_filterMap.mp hSight
    obtain ⟨n, -, hEntry⟩ := Option.bind_eq_some_iff.mp hEntry
    have hQuiet := h.entry_ne_interrupted (p.child name) n.kind
    split at hEntry <;> simp_all

theorem failed_notMem_preorder (a : Attributes) (p : Path) :
    Event.failed p .interrupted ∉ preorder t a := by
  induction a using entry_induction (t := t) with
  | step a ih =>
    rw [preorder_eq]
    cases hDirectory : a.isDirectory with
    | false => simp
    | true =>
      obtain ⟨hidden, hHidden⟩ := exists_isHidden h a.path
      rw [if_pos rfl, hHidden]
      cases hidden with
      | true => simp
      | false => simpa [failed_notMem_listingFaults h] using ih hDirectory

theorem failed_notMem_walk (root p : Path) : Event.failed p .interrupted ∉ walk t root := by
  cases hRoot : t.attributes root with
  | error fault =>
    have hQuiet := h.attributes_ne_interrupted root
    simp only [walk, hRoot] at hQuiet ⊢
    simpa using fun _ hFault => hQuiet (congrArg Except.error hFault.symm)
  | ok a =>
    rw [walk_of_attributes hRoot]
    exact failed_notMem_preorder h a p

theorem attributes_of_mem_visits_of_clear {root : Path} {b : Attributes} (hb : b ∈ visits t root) :
    t.attributes b.path = .ok b := by
  obtain ⟨a, hRoot, hBelow⟩ := attributes_of_mem_visits hb
  rcases (mem_below_iff.mp hBelow).eq_or_mem_children with rfl | ⟨p, hc⟩
  · rw [Tree.attributes_path hRoot]
    exact hRoot
  · obtain ⟨place, name, n, hPlace, hUp, hNode, -, hPath⟩ := exists_entry_of_mem_children hc
    obtain ⟨target, hStat, -⟩ := stat_of_mem_children hc
    rw [hPath] at hStat
    obtain ⟨own, hOwn⟩ := h.exists_statOwn_child hPlace hUp hNode hStat
    exact attributes_of_mem_visits_of_statOwn hb (hPath ▸ hOwn)

end Walk

namespace Reconcile.Pass

open Disk (Tree)

/-- A pass over a clear tree meets no interrupt. -/
theorem isQuiet_of_clear {t : Tree} (h : t.IsClear) (p : Pass) : p.IsQuiet t where
  hidden := p.exists_isHidden h
  walk _ event hEvent hInterrupts := by
    cases event with
    | visit a =>
      obtain ⟨fault, hFault⟩ := hInterrupts
      exact Media.takeIn_ne_error h false a p.volume fault hFault
    | hidden path => exact hInterrupts
    | failed path fault =>
      obtain rfl : fault = .interrupted := hInterrupts
      exact Walk.failed_notMem_walk h p.root path hEvent
    | leave path => exact hInterrupts

end Reconcile.Pass

end MediaIndex
