import Mathlib.Data.Fintype.Card
import PollingExpress.Nav.Segments

/-!
# Segmentation is faithful

Driving the tasks that are queued for a route visits the nodes of the route
(`Replays`). The loop keeps in its segment the buffer nodes in front and the nodes
of the route since the last reversal (`AtNode`), so each task comes out as those and
the buffer nodes behind; `segmentsLoop_spec` is the induction along the route.

Two things can go wrong. A segment may not fit into the array of a task, or the
route may turn around at a node that has no row in `buffer_nodes` (`Room` says
neither happens). And the last node is compared with the entry behind it, which is
zero: a route that ends at the reverse of node 0 gets a reversal at its end that it
does not have, unless its last hop is one or the array is full.
-/

namespace PollingExpress
namespace Nav

/-! ### What the tasks should do -/

/-- The buffer nodes of a reversal, as they are met on the way back. -/
def flip (T : Track) (row : List NodeNum) : List NodeNum := row.reverse.map T.reverse

/-- From node `at`, with `pre` in front of the next task's nodes, the tasks visit the
nodes of the last argument. -/
inductive Replays (T : Track) :
    List NodeNum → NodeNum → List NavigationTask → List NodeNum → Prop
  | done {pre : List NodeNum} {n : NodeNum} : Replays T pre n [] []
  /-- A reversal at the start or at the end of the route. -/
  | reverse {n : NodeNum} {ts : List NavigationTask} {visited : List NodeNum}
      (h : Replays T [] (T.reverse n) ts visited) :
      Replays T [] n (.reverse :: ts) (T.reverse n :: visited)
  | straight {pre core : List NodeNum} {n last : NodeNum} {task : StraightpathTask}
      {ts : List NavigationTask} {visited : List NodeNum}
      (h_path : task.path = pre ++ n :: core) (h_last : (n :: core).getLast? = some last)
      (h : Replays T [] last ts visited) :
      Replays T pre n (.straight task :: ts) (core ++ visited)
  /-- A task that goes past a merge, and the reversal behind it. -/
  | turn {pre core row : List NodeNum} {n last : NodeNum} {task : StraightpathTask}
      {ts : List NavigationTask} {visited : List NodeNum}
      (h_path : task.path = pre ++ n :: core ++ row) (h_last : (n :: core).getLast? = some last)
      (h_row : T.bufferRow last = some row)
      (h : Replays T (flip T row) (T.reverse last) ts visited) :
      Replays T pre n (.straight task :: .reverse :: ts) (core ++ T.reverse last :: visited)

/-- The route's last hop is a reversal. -/
def EndsInTurn (T : Track) (route : List NodeNum) : Prop :=
  ∃ init n, route = init ++ [n, T.reverse n]

theorem EndsInTurn.append {T : Track} {route : List NodeNum} (h : EndsInTurn T route)
    (before : List NodeNum) : EndsInTurn T (before ++ route) := by
  obtain ⟨init, n, rfl⟩ := h
  exact ⟨before ++ init, n, (List.append_assoc _ _ _).symm⟩

theorem Replays.visited_nil {T : Track} {pre : List NodeNum} {n : NodeNum}
    {visited : List NodeNum} (h : Replays T pre n [] visited) : visited = [] := by
  cases h
  rfl

/-- Driving tasks that end with a reversal visits a route that does. The induction is on how the
tasks are driven; each path stands in front of what comes behind it. -/
theorem Replays.endsInTurn {T : Track} {pre : List NodeNum} {n : NodeNum}
    {ts : List NavigationTask} {visited : List NodeNum} (h : Replays T pre n ts visited)
    (h_last : ts.getLast? = some .reverse) : EndsInTurn T (n :: visited) := by
  induction h with
  | done => simp at h_last
  | @reverse n ts visited h ih =>
    cases ts with
    | nil =>
      rw [h.visited_nil]
      exact ⟨[], n, rfl⟩
    | cons t ts => exact (ih h_last).append [n]
  | @straight pre core n last task ts visited h_path h_core h ih =>
    obtain ⟨init, h_init⟩ := List.getLast?_eq_some_iff.mp h_core
    -- what is visited behind the path ends in a turn, and the path stands in front of it
    have h_tail : EndsInTurn T (last :: visited) := by
      cases ts with
      | nil => simp at h_last
      | cons t ts => exact ih h_last
    have h_route : n :: (core ++ visited) = init ++ last :: visited := by
      rw [← List.cons_append, h_init, List.append_assoc]
      rfl
    rw [h_route]
    exact h_tail.append init
  | @turn pre core row n last task ts visited h_path h_core h_row h ih =>
    obtain ⟨init, h_init⟩ := List.getLast?_eq_some_iff.mp h_core
    have h_route : n :: (core ++ T.reverse last :: visited) =
        init ++ last :: T.reverse last :: visited := by
      rw [← List.cons_append, h_init, List.append_assoc]
      rfl
    rw [h_route]
    cases ts with
    | nil =>
      rw [h.visited_nil]
      exact ⟨init, last, rfl⟩
    | cons t ts =>
      have h_tail := (ih h_last).append (init ++ [last])
      rwa [List.append_assoc] at h_tail

/-! ### What has to fit -/

/-- With `k` nodes in the segment, what is left of the route is cut into segments
that fit, at nodes that have buffer nodes. -/
def Room (T : Track) : ℕ → List NodeNum → Prop
  | _, [] => True
  | k, n :: rest =>
    if rest.head? = some (T.reverse n) ∧ rest.length ≠ 1 then
      -- a reversal in the middle of the route
      ∃ row, T.bufferRow n = some row ∧ k + 1 + row.length ≤ maxTaskPath ∧ Room T row.length rest
    else if rest.head? = some (T.reverse n) ∨ rest = [] then k + 1 ≤ maxTaskPath
    else Room T (k + 1) rest

instance decidableRoom (T : Track) : ∀ (k : ℕ) (route : List NodeNum), Decidable (Room T k route)
  | _, [] => inferInstanceAs (Decidable True)
  | k, n :: rest =>
    have _h_rest (l : ℕ) : Decidable (Room T l rest) := decidableRoom T l rest
    inferInstanceAs (Decidable (if rest.head? = some (T.reverse n) ∧ rest.length ≠ 1 then
        ∃ row, row ∈ T.bufferRow n ∧ k + 1 + row.length ≤ maxTaskPath ∧ Room T row.length rest
      else if rest.head? = some (T.reverse n) ∨ rest = [] then k + 1 ≤ maxTaskPath
      else Room T (k + 1) rest))

/-- The route without a reversal on the spot at its start. -/
def afterLeading (T : Track) : List NodeNum → List NodeNum
  | n :: m :: rest => if m = T.reverse n then m :: rest else n :: m :: rest
  | route => route

/-! ### One step of the loop -/

/-- Where the loop is: it has `pre` buffer nodes and the nodes `consumed` of the route in its
segment, or is about to put the buffer nodes in. At the start of a segment it is empty, and the
buffer nodes are those behind the reversal, if there was one. -/
structure AtNode (T : Track) (st : SegmentState) (pre consumed : List NodeNum) : Prop where
  segment_capacity : st.segment.capacity = some trackMax
  tasks_capacity : st.navigationTasks.capacity = none
  inside : consumed ≠ [] →
    st.cameFromReverse = false ∧ st.segment.items = (pre ++ consumed).take trackMax
  atStart : consumed = [] → st.segment.items = [] ∧
    (st.cameFromReverse = false ∧ pre = [] ∨ st.cameFromReverse = true ∧
      ∃ n row, st.mergeNodeNum = some n ∧ T.bufferRow n = some row ∧ pre = flip T row)

section Step

variable {T : Track} {st : SegmentState} {pre consumed : List NodeNum}

theorem AtNode.count_pos (h : AtNode T st pre consumed) :
    st.segment.count ≥ 1 ↔ consumed ≠ [] := by
  constructor
  · rintro h_count rfl
    rw [Fifo.count, (h.atStart rfl).1] at h_count
    simp at h_count
  · intro h_ne
    have h_length : consumed.length ≠ 0 := by simpa using h_ne
    rw [Fifo.count, (h.inside h_ne).2, List.length_take, List.length_append]
    have h_max : trackMax = 144 := rfl
    omega

/-- A node goes into a segment that has nodes of the route already. -/
theorem AtNode.push (h : AtNode T st pre consumed) (h_ne : consumed ≠ []) (n : NodeNum) :
    AtNode T (st.push n) pre (consumed ++ [n]) := by
  obtain ⟨h_came, h_items⟩ := h.inside h_ne
  refine ⟨(Fifo.capacity_push _ _).trans h.segment_capacity, h.tasks_capacity,
    fun _ => ⟨h_came, ?_⟩, fun h_nil => absurd h_nil (by simp)⟩
  rw [← List.append_assoc]
  exact Fifo.items_push_take h.segment_capacity h_items n

/-- A node that is not turned around on goes into the segment. -/
theorem AtNode.augment_push (h : AtNode T st pre consumed) (n : NodeNum) :
    ∃ st', augment T st = .ok st' ∧ AtNode T (st'.push n) pre (consumed ++ [n]) ∧
      st'.navigationTasks = st.navigationTasks := by
  by_cases h_ne : consumed = []
  · subst h_ne
    obtain ⟨h_items, ⟨h_came, rfl⟩ | ⟨h_came, m, row, h_merge, h_row, rfl⟩⟩ := h.atStart rfl
    · refine ⟨st, by simp [augment, h_came], ⟨?_, h.tasks_capacity, fun _ => ⟨h_came, ?_⟩,
        fun h_nil => absurd h_nil (by simp)⟩, rfl⟩
      · exact (Fifo.capacity_push _ _).trans h.segment_capacity
      · exact Fifo.items_push_take h.segment_capacity (h_items.trans List.take_nil.symm) n
    · -- the buffer nodes of the merge come first
      refine ⟨{ st with
          segment := st.segment.pushAll (flip T row)
          cameFromReverse := false }, ?_, ⟨?_, h.tasks_capacity, fun _ => ⟨rfl, ?_⟩,
        fun h_nil => absurd h_nil (by simp)⟩, rfl⟩
      · simp [augment, h_came, addBufferNodes, h_merge, h_row, flip, bind, Except.bind]
      · exact ((Fifo.capacity_push _ _).trans (Fifo.capacity_pushAll _ _)).trans
          h.segment_capacity
      · refine Fifo.items_push_take ((Fifo.capacity_pushAll _ _).trans h.segment_capacity) ?_ n
        exact Fifo.items_pushAll_take h.segment_capacity (h_items.trans List.take_nil.symm) _
  · refine ⟨st, ?_, h.push h_ne n, rfl⟩
    simp [augment, (h.inside h_ne).1]

/-- A segment of `l` is queued if it fits. -/
theorem addNavigationTask_spec (train : TrainNum) (offset : Int32) {l : List NodeNum}
    (h_items : st.segment.items = l.take trackMax) :
    (l.length ≤ maxTaskPath → ∃ st' task, addNavigationTask T train offset st = .ok st' ∧
      task.path = l ∧ st'.navigationTasks = st.navigationTasks.push (.straight task) ∧
      st'.segment = st.segment ∧ st'.cameFromReverse = st.cameFromReverse ∧
      st'.mergeNodeNum = st.mergeNodeNum) ∧
    (maxTaskPath < l.length → addNavigationTask T train offset st = .error .pathOverrun) := by
  -- the segment is cut at a length that no task can take, so that a long one is seen
  have h_length : st.segment.items.length = min trackMax l.length := by
    rw [h_items, List.length_take]
  have h_max : maxTaskPath ≤ trackMax := by decide
  unfold addNavigationTask
  refine ⟨fun h_le => ?_, fun h_lt => ?_⟩
  · have h_all : st.segment.items = l := by
      rw [h_items, List.take_of_length_le (h_le.trans h_max)]
    rw [dif_pos (by rwa [h_all])]
    exact ⟨_, _, rfl, h_all, rfl, rfl, rfl, rfl⟩
  · have h_lt' : maxTaskPath < trackMax := by decide
    rw [dif_neg (by omega)]

/-- The segment in front of a reversal in the middle of the route: with its row it fits into a task
and is queued, or the call fails. -/
theorem AtNode.endAtMerge (h : AtNode T st pre consumed) (h_ne : consumed ≠ [])
    (train : TrainNum) (n : NodeNum) :
    (∀ row, T.bufferRow n = some row → (pre ++ consumed ++ row).length ≤ maxTaskPath →
      ∃ st' task, endAtMerge T train n st = .ok st' ∧ task.path = pre ++ consumed ++ row ∧
        st'.navigationTasks = st.navigationTasks.push (.straight task) ∧
        AtNode T st' (flip T row) []) ∧
    ((∀ row, T.bufferRow n = some row → maxTaskPath < (pre ++ consumed ++ row).length) →
      ∃ fault, endAtMerge T train n st = .error fault) := by
  have h_filled : ∀ row, (st.segment.pushAll row).items = (pre ++ consumed ++ row).take trackMax :=
    fun row => Fifo.items_pushAll_take h.segment_capacity (h.inside h_ne).2 row
  refine ⟨fun row h_row h_fits => ?_, fun h_over => ?_⟩
  · -- the segment with the row behind it is queued, and the next one starts with the row
    let filled : SegmentState := { st with
      segment := st.segment.pushAll row, mergeNodeNum := some n, cameFromReverse := true }
    obtain ⟨st', task, h_add, h_path, h_tasks, h_segment, h_came, h_merge⟩ :=
      (@addNavigationTask_spec T filled train 0 _ (h_filled row)).1 h_fits
    refine ⟨st'.clear, task, ?_, h_path, h_tasks, ⟨?_, ?_, fun h_nil => absurd rfl h_nil, ?_⟩⟩
    · unfold Nav.endAtMerge
      simp only [addBufferNodes, Option.bind_some, h_row, if_pos, bind, Except.bind]
      exact congrArg (fun r => r.bind fun st => .ok st.clear) h_add
    · change st'.segment.capacity = _
      rw [h_segment]
      exact (Fifo.capacity_pushAll _ _).trans h.segment_capacity
    · change st'.navigationTasks.capacity = none
      rw [h_tasks]
      exact (Fifo.capacity_push _ _).trans h.tasks_capacity
    · intro _
      exact ⟨rfl, Or.inr ⟨h_came, n, row, h_merge, h_row, rfl⟩⟩
  · -- there is no row, or it does not fit
    unfold Nav.endAtMerge
    cases h_row : T.bufferRow n with
    | none => exact ⟨.bufferRow, by simp [addBufferNodes, h_row, bind, Except.bind]⟩
    | some row =>
      let filled : SegmentState := { st with
        segment := st.segment.pushAll row, mergeNodeNum := some n, cameFromReverse := true }
      have h_add := (@addNavigationTask_spec T filled train 0 _ (h_filled row)).2
        (h_over row h_row)
      refine ⟨.pathOverrun, ?_⟩
      simp only [addBufferNodes, Option.bind_some, h_row, if_pos, bind, Except.bind]
      exact congrArg (fun r => r.bind fun st => .ok st.clear) h_add

end Step

/-! ### Along the route -/

section Loop

variable {T : Track} {pad : Option NodeNum}

/-- The route does not get a reversal at its end that it does not have. -/
def EndsRight (T : Track) (pad : Option NodeNum) (route : List NodeNum) : Prop :=
  EndsInTurn T route ∨ ∀ n, route.getLast? = some n → pad ≠ some (T.reverse n)

theorem EndsRight.tail {n m : NodeNum} {rest : List NodeNum}
    (h : EndsRight T pad (n :: m :: rest)) (h_turn : m = T.reverse n → rest ≠ []) :
    EndsRight T pad (m :: rest) := by
  obtain ⟨init, k, h_eq⟩ | h := h
  · cases init with
    | nil =>
      obtain ⟨rfl, rfl, rfl⟩ : n = k ∧ m = T.reverse k ∧ rest = [] := by simpa using h_eq
      exact absurd rfl (h_turn rfl)
    | cons x init => exact .inl ⟨init, k, (List.cons.inj h_eq).2⟩
  · exact .inr fun k hk => h k (by rw [List.getLast?_cons_cons]; exact hk)

theorem EndsRight.not_turn {n : NodeNum} (h : EndsRight T pad [n]) : pad ≠ some (T.reverse n) := by
  obtain ⟨init, k, h_eq⟩ | h := h
  · have h_length := congrArg List.length h_eq
    simp at h_length
  · exact h n rfl

/-- The loop at the last node of the route, which it compares with the entry behind. -/
theorem segmentsLoop_one (train : TrainNum) (destOffset : Int32) (n : NodeNum)
    (st : SegmentState) :
    segmentsLoop T train destOffset pad [n] st =
      if pad = some (T.reverse n) then
        if st.segment.count ≥ 1 then
          (endAtMerge T train n (st.push n)).bind fun st => .ok st.pushReverse
        else .ok st.pushReverse
      else (augment T st).bind fun st =>
        (addNavigationTask T train destOffset (st.push n)).bind fun st => .ok st.clear := by
  rw [segmentsLoop]
  simp only [List.head?_nil, Option.none_or, List.length_nil, Nat.zero_ne_one, if_false, if_true,
    segmentsLoop]
  rfl

/-- The loop at any other node. -/
theorem segmentsLoop_cons (train : TrainNum) (destOffset : Int32) (n m : NodeNum)
    (rest : List NodeNum) (st : SegmentState) :
    segmentsLoop T train destOffset pad (n :: m :: rest) st =
      if m = T.reverse n then
        if st.segment.count ≥ 1 then
          if rest = [] then
            (addNavigationTask T train (destOffset * -1) (st.push n)).bind
              fun st => .ok st.clear.pushReverse
          else (endAtMerge T train n (st.push n)).bind fun st =>
            segmentsLoop T train destOffset pad (m :: rest) st.pushReverse
        else if rest = [] then .ok st.pushReverse
        else segmentsLoop T train destOffset pad (m :: rest) st.pushReverse
      else (augment T st).bind fun st =>
        segmentsLoop T train destOffset pad (m :: rest) (st.push n) := by
  conv_lhs => rw [segmentsLoop]
  have h_length : (m :: rest).length = 1 ↔ rest = [] := by simp
  simp only [List.head?_cons, Option.some_or, Option.some.injEq, h_length, reduceCtorEq, if_false]
  rfl

/-- What the loop does from a point of the route on, where it has `consumed` in its
segment. -/
def Fills (T : Track) (r : Except Fault SegmentState) (st : SegmentState)
    (pre consumed rest : List NodeNum) : Prop :=
  (Room T (pre.length + consumed.length) rest → ∃ st' new n visited, r = .ok st' ∧
    st'.navigationTasks.items = st.navigationTasks.items ++ new ∧
    consumed ++ rest = n :: visited ∧ Replays T pre n new visited) ∧
  (¬Room T (pre.length + consumed.length) rest → ∃ fault, r = .error fault)

/-- A segment of the route that no reversal in the middle comes behind, if it is queued
with the tasks `behind`. -/
theorem fills_segment {st st' : SegmentState} {pre consumed rest : List NodeNum} {n : NodeNum}
    (train : TrainNum) (offset : Int32) {f : SegmentState → SegmentState}
    {behind : List NavigationTask}
    (h_at : AtNode T st' pre (consumed ++ [n])) (h_tasks : st'.navigationTasks = st.navigationTasks)
    (h_room : Room T (pre.length + consumed.length) (n :: rest) ↔
      pre.length + consumed.length + 1 ≤ maxTaskPath)
    (h_f : ∀ st, st.navigationTasks.capacity = none →
      (f st).navigationTasks.items = st.navigationTasks.items ++ behind)
    (h_behind : Replays T [] n behind rest) :
    Fills T ((addNavigationTask T train offset st').bind fun st => .ok (f st)) st pre consumed
      (n :: rest) := by
  have h_items := (h_at.inside (by simp)).2
  have h_length : (pre ++ (consumed ++ [n])).length = pre.length + consumed.length + 1 := by
    simp [Nat.add_assoc]
  obtain ⟨h_fits, h_over⟩ := @addNavigationTask_spec T _ train offset _ h_items
  rw [Fills, h_room]
  refine ⟨fun h_le => ?_, fun h_lt => ?_⟩
  · obtain ⟨st₁, task, h_add, h_path, h_new, -⟩ := h_fits (h_length ▸ h_le)
    -- the segment has a node of the route in it, at which the train is before it drives
    obtain ⟨first, core, h_core⟩ := List.exists_cons_of_ne_nil
      (show consumed ++ [n] ≠ [] by simp)
    have h_cap : st₁.navigationTasks.capacity = none := by
      rw [h_new, Fifo.capacity_push, h_at.tasks_capacity]
    refine ⟨f st₁, .straight task :: behind, first, core ++ rest, by rw [h_add]; rfl, ?_, ?_, ?_⟩
    · rw [h_f st₁ h_cap, h_new, Fifo.items_push_of_unbounded h_at.tasks_capacity, h_tasks,
        List.append_assoc]
      rfl
    · rw [← List.cons_append, ← h_core, List.append_assoc]
      rfl
    · refine .straight (by rw [h_path, h_core]) ?_ h_behind
      rw [← h_core]
      exact List.getLast?_concat
  · exact ⟨.pathOverrun, by rw [h_over (by omega)]; rfl⟩

theorem AtNode.pushReverse {st : SegmentState} {pre consumed : List NodeNum}
    (h : AtNode T st pre consumed) : AtNode T st.pushReverse pre consumed :=
  ⟨h.segment_capacity, (Fifo.capacity_push _ _).trans h.tasks_capacity, h.inside, h.atStart⟩

/-- A segment of the route that ends at a reversal in the middle. It is one task and the reversal,
in front of what the rest of the route leads to; and if it does not fit, or the rest does not, the
loop fails. -/
theorem fills_turn {st st' : SegmentState} {pre consumed rest : List NodeNum} {n m : NodeNum}
    (train : TrainNum) {loop : SegmentState → Except Fault SegmentState}
    (h_at : AtNode T st' pre (consumed ++ [n]))
    (h_tasks : st'.navigationTasks = st.navigationTasks)
    (h_loop : ∀ st row, AtNode T st (flip T row) [] →
      Fills T (loop st) st (flip T row) [] (T.reverse n :: m :: rest)) :
    Fills T ((endAtMerge T train n st').bind fun st => loop st.pushReverse) st pre consumed
      (n :: T.reverse n :: m :: rest) := by
  obtain ⟨h_fits, h_over⟩ := h_at.endAtMerge (by simp) train n
  -- room for the segment with its row, and for the rest behind the row
  have h_room : Room T (pre.length + consumed.length) (n :: T.reverse n :: m :: rest) ↔
      ∃ row, T.bufferRow n = some row ∧
        pre.length + consumed.length + 1 + row.length ≤ maxTaskPath ∧
        Room T row.length (T.reverse n :: m :: rest) := by
    rw [Room, if_pos (by simp)]
  have h_length : ∀ row : List NodeNum, (pre ++ (consumed ++ [n]) ++ row).length =
      pre.length + consumed.length + 1 + row.length := fun row => by
    simp only [List.length_append, List.length_singleton]
    omega
  have h_flip : ∀ row, (flip T row).length + ([] : List NodeNum).length = row.length :=
    fun row => by
    simp [flip]
  rw [Fills, h_room]
  refine ⟨?_, fun h_not => ?_⟩
  · -- the segment and its row fit, and so does what comes behind the turn
    rintro ⟨row, h_row, h_le, h_rest⟩
    obtain ⟨st₁, task, h_end, h_path, h_new, h_at₁⟩ := h_fits row h_row (h_length row ▸ h_le)
    obtain ⟨first, core, h_core⟩ := List.exists_cons_of_ne_nil
      (show consumed ++ [n] ≠ [] by simp)
    obtain ⟨st₂, new, first', visited, h_run, h_new', h_route, h_replays⟩ :=
      (h_loop st₁.pushReverse row h_at₁.pushReverse).1 (by rwa [h_flip])
    -- the two parts of the route meet at the turn
    obtain ⟨rfl, rfl⟩ := List.cons.inj h_route
    refine ⟨st₂, .straight task :: .reverse :: new, first, core ++ T.reverse n :: m :: rest,
      by rw [h_end]; exact h_run, ?_, ?_, ?_⟩
    · have h_cap : st₁.navigationTasks.capacity = none := h_at₁.tasks_capacity
      rw [h_new', SegmentState.pushReverse, Fifo.items_push_of_unbounded h_cap, h_new,
        Fifo.items_push_of_unbounded h_at.tasks_capacity, h_tasks]
      simp
    · rw [← List.cons_append, ← h_core, List.append_assoc]
      rfl
    · refine .turn ?_ ?_ h_row h_replays
      · rw [h_path, h_core]
      · rw [← h_core]
        exact List.getLast?_concat
  · -- either no row lets the segment fit, or the rest does not
    by_cases h_all : ∀ row, T.bufferRow n = some row →
        maxTaskPath < (pre ++ (consumed ++ [n]) ++ row).length
    · obtain ⟨fault, h_end⟩ := h_over h_all
      exact ⟨fault, by rw [h_end]; rfl⟩
    · -- the segment is queued, so that it is the rest that does not fit
      obtain ⟨row, h_all⟩ := not_forall.mp h_all
      obtain ⟨h_row, h_le⟩ := Classical.not_imp.mp h_all
      obtain ⟨st₁, task, h_end, -, -, h_at₁⟩ := h_fits row h_row (Nat.le_of_not_lt h_le)
      rw [h_length] at h_le
      obtain ⟨fault, h_run⟩ := (h_loop st₁.pushReverse row h_at₁.pushReverse).2
        fun h_rest => h_not ⟨row, h_row, Nat.le_of_not_lt h_le, h_flip row ▸ h_rest⟩
      exact ⟨fault, by rw [h_end]; exact h_run⟩

/-- **The loop**, from any point of the route on. The induction is on the nodes that are left, and
it is carried by what has been put into the segment (`AtNode`). Behind the last node the loop reads
the padding, which is not to look like a turn there (`EndsRight`). -/
theorem segmentsLoop_spec (train : TrainNum) (destOffset : Int32) {rest : List NodeNum} :
    ∀ {st : SegmentState} {pre consumed : List NodeNum}, rest ≠ [] → AtNode T st pre consumed →
      (∀ n m tail, rest = n :: m :: tail → consumed = [] → m ≠ T.reverse n) →
      rest.Nodup → EndsRight T pad rest →
      Fills T (segmentsLoop T train destOffset pad rest st) st pre consumed rest := by
  induction rest with
  | nil => exact fun h_ne => absurd rfl h_ne
  | cons n rest ih =>
    intro st pre consumed _ h_at h_start h_nodup h_ends
    cases rest with
    -- one node is left: the segment ends with it, and the padding is no turn
    | nil =>
      obtain ⟨st', h_augment, h_at', h_tasks⟩ := h_at.augment_push n
      rw [segmentsLoop_one, if_neg h_ends.not_turn, h_augment]
      exact fills_segment train destOffset h_at' h_tasks (by simp [Room])
        (fun st _ => (List.append_nil _).symm) .done
    | cons m rest =>
      by_cases h_turn : m = T.reverse n
      · subst h_turn
        -- no reversal comes right behind another one
        have h_ne : consumed ≠ [] := fun h_nil => h_start n _ rest rfl h_nil rfl
        have h_count := h_at.count_pos.mpr h_ne
        cases rest with
        | nil =>
          -- the route ends with the turn
          rw [segmentsLoop_cons, if_pos rfl, if_pos h_count, if_pos rfl]
          refine fills_segment train _ (h_at.push h_ne n) rfl (by simp [Room]) (fun st h_cap => ?_)
            (.reverse .done)
          exact Fifo.items_push_of_unbounded h_cap _
        | cons k rest =>
          rw [segmentsLoop_cons, if_pos rfl, if_pos h_count, if_neg (List.cons_ne_nil k rest)]
          refine fills_turn train (h_at.push h_ne n) rfl fun st' row h_at' => ?_
          -- the next hop does not lead back to `n`
          refine ih (List.cons_ne_nil _ _) h_at' ?_ (List.nodup_cons.mp h_nodup).2
            (h_ends.tail fun _ => List.cons_ne_nil k rest)
          rintro n' m' tail h_eq - rfl
          obtain ⟨rfl, rfl, -⟩ : T.reverse n = n' ∧ k = T.reverse n' ∧ rest = tail := by
            simpa using h_eq
          simp at h_nodup
      · obtain ⟨st', h_augment, h_at', h_tasks⟩ := h_at.augment_push n
        rw [segmentsLoop_cons, if_neg h_turn, h_augment]
        change Fills T (segmentsLoop T train destOffset pad (m :: rest) (st'.push n)) _ _ _ _
        -- the node counts for the segment, wherever the segment ends
        have h_room : Room T (pre.length + consumed.length) (n :: m :: rest) ↔
            Room T (pre.length + (consumed ++ [n]).length) (m :: rest) := by
          rw [Room, if_neg (by simp [h_turn]), if_neg (by simp [h_turn]), List.length_append]
          rfl
        obtain ⟨h_ok, h_err⟩ := ih (List.cons_ne_nil m rest) h_at' (by simp)
          (List.nodup_cons.mp h_nodup).2 (h_ends.tail fun h_eq => absurd h_eq h_turn)
        rw [← h_room] at h_ok h_err
        refine ⟨fun h => ?_, h_err⟩
        obtain ⟨st₁, new, first, visited, h_run, h_new, h_route, h_replays⟩ := h_ok h
        refine ⟨st₁, new, first, visited, h_run, ?_, ?_, h_replays⟩
        · rw [h_new]
          exact congrArg (fun q : Fifo NavigationTask => q.items ++ new) h_tasks
        · rw [← h_route, List.append_assoc]
          rfl

/-- With the right end, the entry behind the route makes no difference. -/
theorem segmentsLoop_pad (train : TrainNum) (destOffset : Int32) {n : NodeNum}
    {rest : List NodeNum} (h_ends : EndsRight T pad (n :: rest)) (st : SegmentState) :
    segmentsLoop T train destOffset pad (n :: rest) st =
      segmentsLoop T train destOffset none (n :: rest) st := by
  induction rest generalizing n st with
  | nil =>
    rw [segmentsLoop_one, segmentsLoop_one, if_neg h_ends.not_turn, if_neg (by simp)]
  | cons m rest ih =>
    rw [segmentsLoop_cons, segmentsLoop_cons]
    by_cases h_last : m = T.reverse n ∧ rest = []
    · rw [if_pos h_last.1, if_pos h_last.1, if_pos h_last.2, if_pos h_last.2, if_pos h_last.2,
        if_pos h_last.2]
    · simp only [ih (h_ends.tail fun h_eq h_nil => h_last ⟨h_eq, h_nil⟩)]

/-! ### A reversal that the route does not have -/

theorem addNavigationTask_capacity {train : TrainNum} {offset : Int32} {st st' : SegmentState}
    (h : addNavigationTask T train offset st = .ok st') :
    st'.navigationTasks.capacity = st.navigationTasks.capacity := by
  unfold addNavigationTask at h
  split at h
  · rw [← Except.ok.inj h]
    exact Fifo.capacity_push _ _
  · cases h

theorem endAtMerge_capacity {train : TrainNum} {n : NodeNum} {st st' : SegmentState}
    (h : endAtMerge T train n st = .ok st') :
    st'.navigationTasks.capacity = st.navigationTasks.capacity := by
  unfold endAtMerge at h
  cases h_buffer : addBufferNodes T st.segment (some n) true with
  | error fault => simp [h_buffer, bind, Except.bind] at h
  | ok segment =>
    simp only [h_buffer, bind, Except.bind] at h
    split at h
    · cases h
    · next st₁ h_add =>
      obtain rfl := Except.ok.inj h
      have h_cap := addNavigationTask_capacity h_add
      exact h_cap

theorem augment_tasks {st st' : SegmentState} (h : augment T st = .ok st') :
    st'.navigationTasks = st.navigationTasks := by
  unfold augment at h
  split at h
  · cases h_buffer : addBufferNodes T st.segment st.mergeNodeNum false with
    | error fault => simp [h_buffer, bind, Except.bind] at h
    | ok segment =>
      simp only [h_buffer, bind, Except.bind] at h
      rw [← Except.ok.inj h]
  · rw [← Except.ok.inj h]

theorem SegmentState.getLast_pushReverse {st : SegmentState}
    (h : st.navigationTasks.capacity = none) :
    st.pushReverse.navigationTasks.items.getLast? = some .reverse := by
  rw [SegmentState.pushReverse, Fifo.items_push_of_unbounded h]
  exact List.getLast?_concat

/-- Without the right end, the tasks end with a reversal: the padding is taken for a node behind the
last one, which the route does not go to. -/
theorem segmentsLoop_wrong_end (train : TrainNum) (destOffset : Int32) {n : NodeNum}
    {rest : List NodeNum} (h_ends : ¬EndsRight T pad (n :: rest)) {st st' : SegmentState}
    (h_cap : st.navigationTasks.capacity = none)
    (h_run : segmentsLoop T train destOffset pad (n :: rest) st = .ok st') :
    st'.navigationTasks.items.getLast? = some .reverse := by
  induction rest generalizing n st with
  | nil =>
    -- the loop takes the padding for the next node, and ends with a turn
    have h_pad : pad = some (T.reverse n) := by
      by_contra h_pad
      refine h_ends (.inr fun m hm => ?_)
      obtain rfl : n = m := by simpa using hm
      exact h_pad
    rw [segmentsLoop_one, if_pos h_pad] at h_run
    split at h_run
    · cases h_end : endAtMerge T train n (st.push n) with
      | error fault => simp [h_end, Except.bind] at h_run
      | ok st₁ =>
        rw [h_end] at h_run
        rw [← Except.ok.inj h_run]
        exact SegmentState.getLast_pushReverse ((endAtMerge_capacity h_end).trans h_cap)
    · rw [← Except.ok.inj h_run]
      exact SegmentState.getLast_pushReverse h_cap
  | cons m rest ih =>
    -- the rest of the route has the wrong end too
    have h_ends' : ¬EndsRight T pad (m :: rest) := by
      rintro (h | h)
      · exact h_ends (.inl (h.append [n]))
      · exact h_ends (.inr fun k hk => h k (List.getLast?_cons_cons ▸ hk))
    have h_push : ∀ st : SegmentState, st.pushReverse.navigationTasks.capacity =
        st.navigationTasks.capacity := fun st => Fifo.capacity_push _ _
    rw [segmentsLoop_cons] at h_run
    by_cases h_turn : m = T.reverse n
    · -- behind a turn the route goes on, or its end would be right
      have h_ne : rest ≠ [] := by
        rintro rfl
        exact h_ends (.inl ⟨[], n, by rw [h_turn]; rfl⟩)
      rw [if_pos h_turn, if_neg h_ne, if_neg h_ne] at h_run
      split at h_run
      · cases h_end : endAtMerge T train n (st.push n) with
        | error fault => simp [h_end, Except.bind] at h_run
        | ok st₁ =>
          rw [h_end] at h_run
          exact ih h_ends' ((h_push st₁).trans ((endAtMerge_capacity h_end).trans h_cap)) h_run
      · exact ih h_ends' ((h_push st).trans h_cap) h_run
    · rw [if_neg h_turn] at h_run
      cases h_augment : augment T st with
      | error fault => simp [h_augment, Except.bind] at h_run
      | ok st₁ =>
        rw [h_augment] at h_run
        have h_tasks := augment_tasks h_augment
        have h_cap₁ : (st₁.push n).navigationTasks.capacity = none := by
          rw [← h_cap, ← h_tasks]
          rfl
        exact ih h_ends' h_cap₁ h_run

/-! ### Whole routes -/

/-- The variables before the loop. -/
def startState (navigationTasks : Fifo NavigationTask) : SegmentState where
  segment := .empty (some trackMax)
  cameFromReverse := false
  mergeNodeNum := none
  hadFirstTask := false
  navigationTasks

theorem fillTasks_eq (train : TrainNum) (destOffset : Int32) (nodes : List NodeNum)
    (navigationTasks : Fifo NavigationTask) :
    fillTasks T train destOffset pad nodes navigationTasks =
      (segmentsLoop T train destOffset pad nodes (startState navigationTasks)).bind
        fun st => .ok st.navigationTasks := rfl

theorem atNode_start : AtNode T (startState (.empty none)) [] [] :=
  ⟨rfl, rfl, fun h => absurd rfl h, fun _ => ⟨rfl, .inl ⟨rfl, rfl⟩⟩⟩

/-- The first hop of a route without repetition is the only one that can lead back. -/
theorem not_turn_again {n m : NodeNum} {rest : List NodeNum} (h : (n :: m :: rest).Nodup)
    (h_turn : m = T.reverse n) {n' m' : NodeNum} {tail : List NodeNum}
    (h_eq : m :: rest = n' :: m' :: tail) : m' ≠ T.reverse n' := by
  rintro rfl
  obtain ⟨rfl, rfl⟩ := List.cons.inj h_eq
  simp [h_turn] at h

/-- The tasks that are queued for a route with the right end are driven along it, if they fit; and
if not, the call fails. A reversal before anything is driven is taken off first (`afterLeading`). -/
theorem fillTasks_spec (train : TrainNum) (destOffset : Int32) {n : NodeNum}
    {rest : List NodeNum} (h_nodup : (n :: rest).Nodup) (h_ends : EndsRight T pad (n :: rest)) :
    (Room T 0 (afterLeading T (n :: rest)) → ∃ tasks,
      fillTasks T train destOffset pad (n :: rest) (.empty none) = .ok tasks ∧
      Replays T [] n tasks.items rest) ∧
    (¬Room T 0 (afterLeading T (n :: rest)) → ∃ fault,
      fillTasks T train destOffset pad (n :: rest) (.empty none) = .error fault) := by
  rw [fillTasks_eq]
  by_cases h_leading : rest.head? = some (T.reverse n)
  · -- the train turns around before it goes anywhere
    obtain ⟨rest, rfl⟩ := List.head?_eq_some_iff.mp h_leading
    have h_count : ¬(startState (.empty none)).segment.count ≥ 1 := by simp [startState, Fifo.count,
      Fifo.empty]
    rw [afterLeading, if_pos rfl, segmentsLoop_cons, if_pos rfl, if_neg h_count]
    by_cases h_nil : rest = []
    · subst h_nil
      rw [if_pos rfl]
      refine ⟨fun _ => ⟨_, rfl, .reverse .done⟩, fun h => absurd ?_ h⟩
      simp [Room, maxTaskPath, trackMax]
    · -- behind that turn the loop starts anew, one node later
      obtain ⟨h_ok, h_err⟩ := segmentsLoop_spec train destOffset (List.cons_ne_nil _ rest)
        (atNode_start (T := T)).pushReverse
        (fun _ _ _ h_eq _ => not_turn_again h_nodup rfl h_eq) (List.nodup_cons.mp h_nodup).2
        (h_ends.tail fun _ => h_nil)
      rw [if_neg h_nil]
      refine ⟨fun h => ?_, fun h => ?_⟩
      · obtain ⟨st, new, first, visited, h_run, h_new, h_route, h_replays⟩ := h_ok h
        obtain ⟨rfl, rfl⟩ := List.cons.inj h_route
        refine ⟨st.navigationTasks, by rw [h_run]; rfl, ?_⟩
        rw [h_new]
        exact .reverse h_replays
      · obtain ⟨fault, h_run⟩ := h_err h
        exact ⟨fault, by rw [h_run]; rfl⟩
  · have h_after : afterLeading T (n :: rest) = n :: rest := by
      cases rest with
      | nil => rfl
      | cons m rest => rw [afterLeading, if_neg (by simpa using h_leading)]
    -- the first hop is no turn, as the loop needs it
    have h_start : ∀ n' m' tail, n :: rest = n' :: m' :: tail → ([] : List NodeNum) = [] →
        m' ≠ T.reverse n' := by
      rintro n' m' tail h_eq - rfl
      obtain ⟨rfl, rfl⟩ := List.cons.inj h_eq
      exact h_leading rfl
    obtain ⟨h_ok, h_err⟩ := segmentsLoop_spec train destOffset (List.cons_ne_nil n rest)
      atNode_start h_start h_nodup h_ends
    rw [h_after]
    refine ⟨fun h => ?_, fun h => ?_⟩
    · obtain ⟨st, new, first, visited, h_run, h_new, h_route, h_replays⟩ := h_ok h
      obtain ⟨rfl, rfl⟩ := List.cons.inj h_route
      exact ⟨st.navigationTasks, by rw [h_run]; rfl, by rw [h_new]; exact h_replays⟩
    · obtain ⟨fault, h_run⟩ := h_err h
      exact ⟨fault, by rw [h_run]; rfl⟩

end Loop

/-- The message of `pathfind_worker` for a route it found: the rest of the array is zero. A route
that repeats no node has room in the array, since there are no more nodes than entries. -/
def RoutePath.found (route : List NodeNum) (h : route.Nodup) : RoutePath where
  nodes := route
  padding := List.replicate (trackMax - route.length) 0
  length_eq := by
    have h_card : route.length ≤ trackMax := by
      simpa using (List.toFinset_card_of_nodup h) ▸ Finset.card_le_univ route.toFinset
    simp only [List.length_replicate]
    omega

section Faithful

variable (T : Track) (train : TrainNum) (destOffset : Int32) {n : NodeNum} {rest : List NodeNum}

/-- The tasks queued for a route drive it, and are the ones that its nodes alone determine: the loop
queues the same tasks if it is told where the route ends. -/
def Faithful (h : (n :: rest).Nodup) : Prop :=
  ∃ tasks, segmentsFillNavigationTasks T (.found (n :: rest) h) (.empty none) train destOffset =
      .ok tasks ∧
    fillTasks T train destOffset none (n :: rest) (.empty none) = .ok tasks ∧
    Replays T [] n tasks.items rest

/-- The padding behind a route that has been found is node 0, or there is none, if the route fills
the array. -/
theorem endsRight_found (h : (n :: rest).Nodup) :
    EndsRight T (RoutePath.found (n :: rest) h).padding.head? (n :: rest) ↔
      EndsInTurn T (n :: rest) ∨ (n :: rest).length = trackMax ∨
        (n :: rest).getLast? ≠ some (T.reverse 0) := by
  have h_le : (n :: rest).length ≤ trackMax := by
    have h_eq := (RoutePath.found (n :: rest) h).length_eq
    change (n :: rest).length + _ = _ at h_eq
    omega
  change EndsInTurn T _ ∨ (∀ m, (n :: rest).getLast? = some m →
    (List.replicate (trackMax - (n :: rest).length) (0 : NodeNum)).head? ≠ some (T.reverse m)) ↔ _
  refine or_congr_right ?_
  rw [List.head?_replicate]
  -- with the array full there is no padding, and otherwise it is node 0
  by_cases h_full : (n :: rest).length = trackMax
  · simp [h_full]
  · rw [if_neg (by omega)]
    refine ⟨fun h_last => .inr fun h_eq => h_last _ h_eq (by simp), ?_⟩
    rintro (h_eq | h_last) m hm h_zero
    · exact absurd h_eq h_full
    · refine h_last (hm.trans ?_)
      rw [Option.some.inj h_zero, Track.reverse_reverse']

theorem Faithful.endsRight {h : (n :: rest).Nodup} (h_faithful : Faithful T train destOffset h) :
    EndsRight T (RoutePath.found (n :: rest) h).padding.head? (n :: rest) := by
  obtain ⟨tasks, h_fill, -, h_replays⟩ := h_faithful
  by_contra h_not
  change fillTasks T train destOffset _ (n :: rest) _ = _ at h_fill
  rw [fillTasks_eq] at h_fill
  cases h_run : segmentsLoop T train destOffset (RoutePath.found (n :: rest) h).padding.head?
    (n :: rest) (startState (.empty none)) with
  | error fault => simp [h_run, Except.bind] at h_fill
  | ok st =>
    rw [h_run] at h_fill
    obtain rfl : st.navigationTasks = tasks := Except.ok.inj h_fill
    -- the reversal that was queued is the route's last hop
    exact h_not (.inl (h_replays.endsInTurn
      (segmentsLoop_wrong_end train destOffset h_not rfl h_run)))

/-- **Segmentation.** The tasks queued for a route are faithful exactly if its segments fit, and the
route ends with a reversal, or fills the array, or does not end at the reverse of node 0.

The tasks drive the route, node by node (`Replays`), and do not depend on what is behind it in the
array. The array is padded with zeros, which are node 0, so that at the last node the loop sees a
reversal which is not there if this is the reverse of node 0. `Room` follows the loop with the
number of nodes in the segment. -/
theorem faithful_iff (h : (n :: rest).Nodup) :
    Faithful T train destOffset h ↔ Room T 0 (afterLeading T (n :: rest)) ∧
      (EndsInTurn T (n :: rest) ∨ (n :: rest).length = trackMax ∨
        (n :: rest).getLast? ≠ some (T.reverse 0)) := by
  rw [← endsRight_found T h]
  constructor
  · intro h_faithful
    have h_ends := h_faithful.endsRight
    refine ⟨?_, h_ends⟩
    -- without room the loop fails, and there are no tasks
    by_contra h_room
    obtain ⟨fault, h_run⟩ := (fillTasks_spec train destOffset h h_ends).2 h_room
    obtain ⟨tasks, h_fill, -⟩ := h_faithful
    cases h_run.symm.trans h_fill
  · rintro ⟨h_room, h_ends⟩
    obtain ⟨tasks, h_fill, h_replays⟩ := (fillTasks_spec train destOffset h h_ends).1 h_room
    -- the padding is not looked at, so without it the tasks are the same
    refine ⟨tasks, h_fill, ?_, h_replays⟩
    rw [← h_fill, fillTasks_eq, fillTasks_eq, segmentsLoop_pad train destOffset h_ends]

/-- Along the ring and back: the route turns around in the middle, at node 8. -/
theorem faithful_iff_there_and_back : ∃ h_once : ([4, 6, 8, 9, 7, 5, 3] : List NodeNum).Nodup,
    Faithful ringTrack 0 0 h_once := by
  have h_once : ([4, 6, 8, 9, 7, 5, 3] : List NodeNum).Nodup := by decide
  exact ⟨h_once, (faithful_iff ringTrack 0 0 h_once).mpr ⟨by decide, .inr (.inr (by decide))⟩⟩

/-- One hop along the ring, to the reverse of node 0. -/
theorem not_faithful_hop : ¬∀ (T : Track) (train : TrainNum) (destOffset : Int32) (n : NodeNum)
    (rest : List NodeNum) (h : (n :: rest).Nodup), (n :: rest).IsChain T.Joined →
    Faithful T train destOffset h := by
  intro h_all
  have h_faithful := h_all ringTrack 0 0 3 [1] (by decide) (by decide)
  obtain ⟨init, n, h_turn⟩ | h_last := h_faithful.endsRight
  · have h_route : [] ++ [3, 1] = init ++ [n, ringTrack.reverse n] := h_turn
    obtain ⟨-, h_eq⟩ := List.append_inj' h_route rfl
    obtain ⟨rfl, h_last⟩ := List.cons.inj h_eq
    exact absurd h_last (by decide)
  · exact h_last 1 rfl (by decide +kernel)

end Faithful

end Nav
end PollingExpress
