import MediaIndex.Disk.Volume
import MediaIndex.Media.AudioFolder
import MediaIndex.Proofs.PathReading
import MediaIndex.Proofs.RecordShapes

/-!
# Folders on the way to an audio file

The flags of an audio file are found by a search for names between slashes in the whole path. In a
path that starts with a slash such a name is a segment that is not the last one. No letter becomes a
slash when it is lowered, and none that is a slash becomes something else, so lowering a path lowers
its segments one by one. A flag is therefore set exactly if the file lies at some depth below a
folder of that name, in any case, and music is also what lies below none of them.
-/

namespace MediaIndex

namespace Text

/-! ## Texts inside a text -/

theorem isSome_dropStart?_iff {part cs : List Char} :
    (dropStart? part cs).isSome = true ↔ part <+: cs := by
  induction part generalizing cs with
  | nil => simp [dropStart?]
  | cons p part ih =>
    cases cs with
    | nil => simp [dropStart?]
    | cons c cs =>
      rw [dropStart?, List.cons_prefix_cons]
      split
      · next hEq => rw [ih, and_iff_right hEq]
      · next hNe => simp [hNe]

theorem hasSegment_iff {part cs : List Char} : hasSegment part cs = true ↔ part <:+: cs := by
  induction cs with
  | nil => rw [hasSegment, List.isEmpty_iff, List.infix_nil]
  | cons c cs ih => rw [hasSegment, Bool.or_eq_true, isSome_dropStart?_iff, ih, List.infix_cons_iff]

/-! ## Segments between separators -/

theorem mem_dropLast_iff {α : Type} {x : α} {xs : List α} :
    x ∈ xs.dropLast ↔ ∃ front back, back ≠ [] ∧ xs = front ++ x :: back := by
  constructor
  · intro h
    obtain ⟨front, back, hSplit⟩ := List.append_of_mem h
    have hSome : xs ≠ [] := List.ne_nil_of_mem (List.dropLast_subset xs h)
    refine ⟨front, back ++ [xs.getLast hSome], by simp, ?_⟩
    rw [← List.cons_append, ← List.append_assoc, ← hSplit, List.dropLast_concat_getLast]
  · rintro ⟨front, back, hSome, rfl⟩
    rw [List.dropLast_append_of_ne_nil (List.cons_ne_nil x back),
      List.dropLast_cons_of_ne_nil hSome]
    exact List.mem_append_right front List.mem_cons_self

section

variable {sep : Char}

theorem splitAt_append (xs ys : List Char) :
    splitAt sep (xs ++ sep :: ys) = splitAt sep xs ++ splitAt sep ys := by
  induction xs with
  | nil => exact if_pos rfl
  | cons c xs ih =>
    rw [List.cons_append, splitAt, splitAt, ih]
    split
    · rfl
    · cases hSplit : splitAt sep xs with
      | nil => exact absurd hSplit (splitAt_ne_nil sep xs)
      | cons segment rest => rfl

theorem splitAt_append_of_notMem {xs : List Char} (h : sep ∉ xs) (ys : List Char) :
    splitAt sep (xs ++ ys) = (splitAt sep ys).modifyHead (xs ++ ·) := by
  induction xs with
  | nil => exact (congrFun List.modifyHead_id (splitAt sep ys)).symm
  | cons c xs ih =>
    rw [List.cons_append, splitAt, if_neg (List.ne_of_not_mem_cons h).symm,
      ih (List.not_mem_of_not_mem_cons h)]
    cases hSplit : splitAt sep ys with
    | nil => exact absurd hSplit (splitAt_ne_nil sep ys)
    | cons segment rest => rfl

theorem joinWith_append {front back : List (List Char)} (hFront : front ≠ []) (hBack : back ≠ []) :
    joinWith sep (front ++ back) = joinWith sep front ++ sep :: joinWith sep back := by
  obtain ⟨next, back, rfl⟩ := List.exists_cons_of_ne_nil hBack
  induction front with
  | nil => exact absurd rfl hFront
  | cons segment front ih =>
    cases front with
    | nil => rfl
    | cons other front =>
      calc joinWith sep (segment :: other :: (front ++ next :: back))
        _ = segment ++ sep :: joinWith sep (other :: front ++ next :: back) := rfl
        _ = segment ++ sep ::
            (joinWith sep (other :: front) ++ sep :: joinWith sep (next :: back)) := by
          rw [ih (List.cons_ne_nil other front)]
        _ = joinWith sep (segment :: other :: front) ++ sep :: joinWith sep (next :: back) := by
          rw [joinWith.eq_3 sep segment (other :: front) (List.cons_ne_nil other front),
            List.append_assoc, List.cons_append]

/-- In a text that starts with the separator, what stands between two of them is a segment that is
not the last one. -/
theorem between_infix_iff {segment cs : List Char} (hSome : segment ≠ []) (hSep : sep ∉ segment) :
    sep :: (segment ++ [sep]) <:+: sep :: cs ↔ segment ∈ (splitAt sep (sep :: cs)).dropLast := by
  rw [mem_dropLast_iff]
  constructor
  · rintro ⟨front, back, hText⟩
    refine ⟨splitAt sep front, splitAt sep back, splitAt_ne_nil sep back, ?_⟩
    rw [← hText, List.append_assoc, List.cons_append, List.append_assoc, List.singleton_append,
      splitAt_append, Path.splitAt_append_cons hSep]
  · rintro ⟨front, back, hBack, hSplit⟩
    -- The first segment is empty, so one that is not has something in front of it.
    have hFront : front ≠ [] := by
      rintro rfl
      rw [splitAt, if_pos rfl, List.nil_append, List.cons.injEq] at hSplit
      exact hSome hSplit.1.symm
    refine ⟨joinWith sep front, joinWith sep back, ?_⟩
    calc joinWith sep front ++ sep :: (segment ++ [sep]) ++ joinWith sep back
      _ = joinWith sep front ++ sep :: (joinWith sep [segment] ++ sep :: joinWith sep back) := by
        simp [joinWith]
      _ = joinWith sep (front ++ ([segment] ++ back)) := by
        rw [joinWith_append hFront (by simp), joinWith_append (List.cons_ne_nil _ _) hBack]
      _ = sep :: cs := by rw [List.singleton_append, ← hSplit, joinWith_splitAt]

end

/-! ## Lowering segments -/

/-- No capital letter of the table is lowered to a slash or to a code before it. -/
theorem slash_lt_of_capital {run : CapitalRun} (h : run ∈ capitalRuns) :
    0x2F < run.first + run.shift := by
  revert run
  decide +kernel

theorem toNat_ofNat_cases (n : Nat) : (Char.ofNat n).toNat = n ∨ (Char.ofNat n).toNat = 0 := by
  by_cases h : n.isValidChar
  · rw [Char.ofNat, dif_pos h]
    exact .inl rfl
  · rw [Char.ofNat, dif_neg h]
    exact .inr rfl

theorem slash_mem_lowerChar {c : Char} (h : '/' ∈ lowerChar c) : c = '/' := by
  have hSlash : '/'.toNat = 0x2F := rfl
  unfold lowerChar at h
  split at h
  · next hAscii =>
    have hPlain : ∀ n < 0x80, '/' = (Char.ofNat n).toLower → Char.ofNat n = '/' := by decide
    have hLow := hPlain c.toNat hAscii
    rw [Char.ofNat_toNat] at hLow
    exact hLow (List.mem_singleton.mp h)
  · split at h
    · simp at h
    · split at h
      · next run hFind =>
        have hHolds := List.find?_some hFind
        have hLow : '/' = Char.ofNat (c.toNat + run.shift).toNat := List.mem_singleton.mp h
        have hCode := congrArg Char.toNat hLow
        have hFar := slash_lt_of_capital (List.mem_of_find?_eq_some hFind)
        simp only [CapitalRun.holds, Bool.and_eq_true, decide_eq_true_eq] at hHolds
        rcases toNat_ofNat_cases (c.toNat + run.shift).toNat with hSame | hNone <;> omega
      · exact (List.mem_singleton.mp h).symm

theorem splitAt_lower (cs : List Char) :
    splitAt '/' (lower cs) = (splitAt '/' cs).map lower := by
  induction cs with
  | nil => rfl
  | cons c cs ih =>
    rw [lower_cons, splitAt]
    split
    · next hSlash =>
      have hLower : lowerChar c = ['/'] := by rw [hSlash]; decide
      rw [hLower, List.singleton_append, splitAt, if_pos rfl, ih]
      rfl
    · next hOther =>
      rw [splitAt_append_of_notMem fun hMem => hOther (slash_mem_lowerChar hMem), ih]
      cases hSplit : splitAt '/' cs with
      | nil => exact absurd hSplit (splitAt_ne_nil '/' cs)
      | cons segment rest => rfl

end Text

namespace Media

open Catalog (Column)

/-- The well-known folders as they are usually written. -/
def knownFolders : List (String × Column) :=
  [("Ringtones", .isRingtone), ("Notifications", .isNotification), ("Alarms", .isAlarm),
    ("Podcasts", .isPodcast), ("Audiobooks", .isAudiobook), ("Music", .isMusic)]

/-- A segment of the path other than the last one is the name of the folder, in any case. -/
def LiesBelow (path folder : String) : Prop :=
  ∃ name ∈ (Disk.segmentsOf path).dropLast, Text.lowercase name = Text.lowercase folder

instance (path folder : String) : Decidable (LiesBelow path folder) :=
  inferInstanceAs (Decidable (∃ name ∈ _, _))

theorem audioFolders_eq_map :
    audioFolders = knownFolders.map fun entry => (Text.lowercase entry.1, entry.2) := by
  decide +kernel

theorem lowercase_isSegment {entry : String × Column} (h : entry ∈ knownFolders) :
    IsSegment (Text.lowercase entry.1) := by
  revert entry
  decide +kernel

theorem liesBelow_iff {path folder : String} : LiesBelow path folder ↔
    Text.lower folder.toList ∈ ((Text.splitAt '/' path.toList).map Text.lower).dropLast := by
  rw [LiesBelow, Disk.segmentsOf, ← List.map_dropLast, ← List.map_dropLast, List.mem_map]
  simp only [List.mem_map, Text.lowercase, String.ofList_inj]
  constructor
  · rintro ⟨_, ⟨segment, hSegment, rfl⟩, hLower⟩
    rw [String.toList_ofList] at hLower
    exact ⟨segment, hSegment, hLower⟩
  · rintro ⟨segment, hSegment, hLower⟩
    exact ⟨_, ⟨segment, hSegment, rfl⟩, by rw [String.toList_ofList, hLower]⟩

theorem passesThrough_iff {path folder : String} (hPath : path.toList.head? = some '/')
    (hFolder : IsSegment (Text.lowercase folder)) :
    passesThrough (Text.lower path.toList) (Text.lowercase folder) = true ↔
      LiesBelow path folder := by
  obtain ⟨rest, hText⟩ := List.head?_eq_some_iff.mp hPath
  have hChars : (Text.lowercase folder).toList = Text.lower folder.toList := String.toList_ofList
  have hSome : Text.lower folder.toList ≠ [] := fun hNil =>
    hFolder.ne_empty (String.toList_inj.mp (hChars.trans hNil))
  have hLower : Text.lower path.toList = '/' :: Text.lower rest := by
    rw [hText]
    rfl
  rw [passesThrough, Text.hasSegment_iff, liesBelow_iff, ← Text.splitAt_lower, hLower,
    ← Text.between_infix_iff hSome (hChars ▸ hFolder.no_slash), ← hChars]
  simp

theorem passesThrough_folders {path : String} (h : path.toList.head? = some '/') :
    audioFolders.map (fun entry => (entry.2, passesThrough (Text.lower path.toList) entry.1)) =
      knownFolders.map fun entry => (entry.2, decide (LiesBelow path entry.1)) := by
  rw [audioFolders_eq_map, List.map_map]
  refine List.map_congr_left fun entry hEntry => ?_
  rw [Function.comp_apply, Prod.mk.injEq, and_iff_right rfl, Bool.eq_iff_iff, decide_eq_true_iff]
  exact passesThrough_iff h (lowercase_isSegment hEntry)

/-- In a path that starts with a slash the flag of a folder is set exactly if a segment other than
the last one is its name, in any case. Music is also set if that holds of no folder, so that one
flag is always set. -/
theorem audioFlags_eq_map {path : String} (h : path.toList.head? = some '/') :
    audioFlags path = knownFolders.map (fun entry => (entry.2, decide (LiesBelow path entry.1 ∨
      entry.2 = .isMusic ∧ ∀ other ∈ knownFolders, ¬ LiesBelow path other.1))) ∧
    ∃ c, (c, true) ∈ audioFlags path := by
  refine ⟨?_, exists_audioFlag_set path⟩
  simp only [audioFlags, passesThrough_folders h]
  split
  · next hAny =>
    obtain ⟨flag, hFlag, hOn⟩ := List.any_eq_true.mp hAny
    obtain ⟨found, hFound, rfl⟩ := List.mem_map.mp hFlag
    refine List.map_congr_left fun entry _ => ?_
    have hSome : ¬ ∀ other ∈ knownFolders, ¬ LiesBelow path other.1 := fun hNone =>
      hNone found hFound (of_decide_eq_true hOn)
    simp only [hSome, and_false, or_false]
  · next hNone =>
    have hNone : ∀ other ∈ knownFolders, ¬ LiesBelow path other.1 := by
      simpa using hNone
    rw [List.map_map]
    refine List.map_congr_left fun entry hEntry => ?_
    simp only [Function.comp_apply, hNone entry hEntry, false_or, Prod.mk.injEq, true_and]
    rw [Bool.eq_iff_iff, beq_iff_eq, decide_eq_true_iff, and_iff_left hNone]

/-- The sign for kelvin is lowered to a plain letter, and the name of the file does not count. -/
theorem audioFlags_eq_map_kelvin :
    "/sd/AudiobooKs/a.d/Music".toList.head? = some '/' ∧
    audioFlags "/sd/AudiobooKs/a.d/Music" = [(.isRingtone, false), (.isNotification, false),
      (.isAlarm, false), (.isPodcast, false), (.isAudiobook, true), (.isMusic, false)] := by
  have hSlash : "/sd/AudiobooKs/a.d/Music".toList.head? = some '/' := by decide
  refine ⟨hSlash, (audioFlags_eq_map hSlash).1.trans ?_⟩
  decide +kernel

end Media

end MediaIndex
