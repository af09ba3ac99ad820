import MediaIndex.Walk.Agenda

/-!
# The recursive walk

The order in which a walk reports, told by recursion: a directory before its entries, an entry and
all below it before the next one, and the end of a directory after all of them. An agenda that
starts with an entry reports what the recursion reports of it, and then works off the rest.
-/

namespace MediaIndex.Walk

open Disk

def preorder (t : Tree) (a : Attributes) : List Event :=
  match h : opening t a with
  | .closed events => events
  | .opened events next =>
    events ++ next.attach.flatMap (fun ⟨c, _⟩ => preorder t c) ++ [.leave a.path]
termination_by reach t a
decreasing_by exact reach_lt_of_opened h (by assumption)

theorem preorder_of_closed {t : Tree} {a : Attributes} {events : List Event}
    (h : opening t a = .closed events) : preorder t a = events := by
  unfold preorder
  split <;> simp_all

theorem preorder_of_opened {t : Tree} {a : Attributes} {events : List Event}
    {next : List Attributes} (h : opening t a = .opened events next) :
    preorder t a = events ++ next.flatMap (preorder t) ++ [.leave a.path] := by
  rw [preorder]
  split
  · simp_all
  · next events' next' h' =>
    obtain ⟨rfl, rfl⟩ : events = events' ∧ next = next' := by simp_all
    have hall : next.attach.flatMap (fun x => preorder t x.1) = next.flatMap (preorder t) := by
      rw [← List.flatMap_map (f := Subtype.val) (g := preorder t), List.attach_map_subtype_val]
    exact congrArg (fun events' => events ++ events' ++ [.leave a.path]) hall

/-- The recursion: a file is visited; a directory that cannot be entered is reported; one that can
is visited, then its listing, then its entries one after another, and then it is left. -/
theorem preorder_eq (t : Tree) (a : Attributes) : preorder t a =
    if a.isDirectory then
      match isHidden t a.path with
      | .error fault => [.failed a.path fault]
      | .ok true => [.hidden a.path]
      | .ok false =>
        .visit a :: (listingFaults t a.path).map (fun sight => .failed sight.1 sight.2) ++
          (children t a.path).flatMap (preorder t) ++ [.leave a.path]
    else [.visit a] := by
  cases hDirectory : a.isDirectory with
  | false =>
    have hOpening : opening t a = .closed [.visit a] := by simp [opening, hDirectory]
    rw [preorder_of_closed hOpening]
    rfl
  | true =>
    rw [if_pos rfl]
    cases hHidden : isHidden t a.path with
    | error fault =>
      have hOpening : opening t a = .closed [.failed a.path fault] := by
        simp [opening, hDirectory, hHidden]
      rw [preorder_of_closed hOpening]
    | ok hidden =>
      cases hidden with
      | true =>
        have hOpening : opening t a = .closed [.hidden a.path] := by
          simp [opening, hDirectory, hHidden]
        rw [preorder_of_closed hOpening]
      | false =>
        have hOpening : opening t a = .opened (.visit a ::
            (listingFaults t a.path).map fun sight => .failed sight.1 sight.2)
            (children t a.path) := by
          simp [opening, hDirectory, hHidden]
        rw [preorder_of_opened hOpening]

theorem workOff_leave_cons (t : Tree) (p : Path) (rest : List Task) :
    workOff t (.leave p :: rest) = .leave p :: workOff t rest := by
  rw [workOff]

theorem workOff_map_enter_append {t : Tree} : ∀ (next : List Attributes) (rest : List Task),
    (∀ c ∈ next, ∀ rest, workOff t (.enter c :: rest) = preorder t c ++ workOff t rest) →
      workOff t (next.map .enter ++ rest) = next.flatMap (preorder t) ++ workOff t rest
  | [], _, _ => by simp
  | c :: next, rest, h => by
    rw [List.map_cons, List.cons_append, h c List.mem_cons_self,
      workOff_map_enter_append next rest fun d hd => h d (List.mem_cons_of_mem _ hd)]
    simp

theorem workOff_enter_cons (t : Tree) (a : Attributes) (rest : List Task) :
    workOff t (.enter a :: rest) = preorder t a ++ workOff t rest := by
  generalize hr : reach t a = bound
  induction bound using Nat.strongRecOn generalizing a rest with
  | ind bound ih =>
    rw [workOff]
    split
    · next events h => rw [preorder_of_closed h]
    · next events next h =>
      rw [preorder_of_opened h, workOff_map_enter_append next _ fun c hc rest =>
        ih (reach t c) (hr ▸ reach_lt_of_opened h hc) c rest rfl, workOff_leave_cons]
      simp

end MediaIndex.Walk
