import MediaIndex.Walk.Opening

/-!
# The walk by an agenda

The walk that runs keeps a list of what is still to do and always takes the first thing. Opening a
directory puts its entries in front, and behind them the note to leave it.
-/

namespace MediaIndex.Walk

open Disk

inductive Task where
  | enter (a : Attributes)
  | leave (p : Path)

def Task.weight (t : Tree) : Task → Nat
  | enter a => Nat.pow (t.nodes.length + 2) (reach t a)
  | leave _ => 1

def agendaWeight (t : Tree) : List Task → Nat
  | [] => 0
  | task :: rest => task.weight t + agendaWeight t rest

theorem Task.weight_pos (t : Tree) (task : Task) : 0 < task.weight t := by
  cases task with
  | enter a => exact Nat.pow_pos (by omega)
  | leave p => exact Nat.one_pos

theorem agendaWeight_cons (t : Tree) (task : Task) (rest : List Task) :
    agendaWeight t (task :: rest) = task.weight t + agendaWeight t rest := rfl

theorem agendaWeight_append (t : Tree) (xs ys : List Task) :
    agendaWeight t (xs ++ ys) = agendaWeight t xs + agendaWeight t ys := by
  induction xs with
  | nil => simp [agendaWeight]
  | cons task xs ih =>
    rw [List.cons_append, agendaWeight_cons, agendaWeight_cons, ih, Nat.add_assoc]

theorem agendaWeight_map_enter_le {t : Tree} {bound : Nat} :
    ∀ next : List Attributes, (∀ c ∈ next, reach t c ≤ bound) →
      agendaWeight t (next.map .enter) ≤ next.length * Nat.pow (t.nodes.length + 2) bound
  | [], _ => by simp [agendaWeight]
  | c :: next, h => by
    have ih := agendaWeight_map_enter_le next fun d hd => h d (List.mem_cons_of_mem _ hd)
    have hc : (Task.enter c).weight t ≤ Nat.pow (t.nodes.length + 2) bound :=
      Nat.pow_le_pow_right (by omega) (h c List.mem_cons_self)
    rw [List.map_cons, agendaWeight_cons, List.length_cons, Nat.succ_mul]
    omega

theorem agendaWeight_opened_lt {t : Tree} {a : Attributes} {events : List Event}
    {next : List Attributes} (h : opening t a = .opened events next) (rest : List Task) :
    agendaWeight t (next.map .enter ++ .leave a.path :: rest) <
      agendaWeight t (.enter a :: rest) := by
  rw [agendaWeight_append, agendaWeight_cons, agendaWeight_cons]
  have hreach : 0 < reach t a := by
    have := (eq_children_of_opened h).1
    simp [reach, this]
  obtain ⟨bound, hbound⟩ : ∃ bound, reach t a = bound + 1 := ⟨reach t a - 1, by omega⟩
  have hnext : agendaWeight t (next.map .enter) ≤
      next.length * Nat.pow (t.nodes.length + 2) bound :=
    agendaWeight_map_enter_le next fun c hc => by
      have := reach_lt_of_opened h hc
      omega
  have hlength := Nat.mul_le_mul_right (Nat.pow (t.nodes.length + 2) bound) (length_le_of_opened h)
  have hpos : 0 < Nat.pow (t.nodes.length + 2) bound := Nat.pow_pos (by omega)
  have hweight : (Task.enter a).weight t =
      t.nodes.length * Nat.pow (t.nodes.length + 2) bound +
        2 * Nat.pow (t.nodes.length + 2) bound := by
    have hpow : Nat.pow (t.nodes.length + 2) (bound + 1) =
        Nat.pow (t.nodes.length + 2) bound * (t.nodes.length + 2) := rfl
    rw [Task.weight, hbound, hpow, Nat.mul_comm, Nat.add_mul]
  have hleave : (Task.leave a.path).weight t = 1 := rfl
  omega

def workOff (t : Tree) : List Task → List Event
  | [] => []
  | .leave p :: rest => .leave p :: workOff t rest
  | .enter a :: rest =>
    match h : opening t a with
    | .closed events => events ++ workOff t rest
    | .opened events next => events ++ workOff t (next.map .enter ++ .leave a.path :: rest)
termination_by agenda => agendaWeight t agenda
decreasing_by
  · rw [agendaWeight_cons]
    have := (Task.leave p).weight_pos t
    omega
  · rw [agendaWeight_cons]
    have := (Task.enter a).weight_pos t
    omega
  · exact agendaWeight_opened_lt h rest

/-- What a walk from a root reports. A root that cannot be examined is reported alone. -/
def walk (t : Tree) (root : Path) : List Event :=
  match t.attributes root with
  | .ok a => workOff t [.enter a]
  | .error fault => [.failed root fault]

end MediaIndex.Walk
