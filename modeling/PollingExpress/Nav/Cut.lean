import Mathlib.Data.List.Chain
import PollingExpress.Nav.Segmentation

/-!
# The tasks of any route

What `segments_fill_navigation_tasks` puts into the queue, whatever the route and
whatever is in the queue already (`Cut`): a STRAIGHT task for each part of the route up
to a reversal, a REVERSE task for each reversal. A route has some task (`Cut.ne_nil`),
and a route without repetition has no two reversals behind each other (`Cut.isChain`).
-/

namespace PollingExpress
namespace Nav

/-- A task that `add_navigation_task` builds for a non-empty segment. -/
structure TaskFor (T : Track) (train : TrainNum) (offset : Int32) (task : StraightpathTask) :
    Prop where
  train_eq : task.train = train
  path_ne : task.path ≠ []
  pathDist_eq : task.pathDist = Int32.ofInt (T.getPathDist task.path) + offset

/-- The tasks for the rest of a route, with nothing in the segment so far (`empty`) or
with something in it. -/
inductive Cut (T : Track) (train : TrainNum) (destOffset : Int32) (pad : Option NodeNum) :
    (empty : Bool) → List NodeNum → List NavigationTask → Prop
  | nil {empty : Bool} : Cut T train destOffset pad empty [] []
  | last {empty : Bool} {n : NodeNum} {task : StraightpathTask}
      (h_task : TaskFor T train destOffset task) :
      Cut T train destOffset pad empty [n] [.straight task]
  | go {empty : Bool} {n m : NodeNum} {rest : List NodeNum} {ts : List NavigationTask}
      (h : Cut T train destOffset pad false (m :: rest) ts) :
      Cut T train destOffset pad empty (n :: m :: rest) ts
  /-- The route ends with a reversal. -/
  | endTurn {n : NodeNum} {task : StraightpathTask}
      (h_task : TaskFor T train (destOffset * -1) task) :
      Cut T train destOffset pad false [n, T.reverse n] [.straight task, .reverse]
  | endReverse {n : NodeNum} : Cut T train destOffset pad true [n, T.reverse n] [.reverse]
  | turn {n : NodeNum} {rest : List NodeNum} {task : StraightpathTask} {ts : List NavigationTask}
      (h_turn : rest.head?.or pad = some (T.reverse n)) (h_more : rest.length ≠ 1)
      (h_task : TaskFor T train 0 task) (h : Cut T train destOffset pad true rest ts) :
      Cut T train destOffset pad false (n :: rest) (.straight task :: .reverse :: ts)
  /-- The train turns around on the spot. -/
  | reverse {n : NodeNum} {rest : List NodeNum} {ts : List NavigationTask}
      (h_turn : rest.head?.or pad = some (T.reverse n)) (h_more : rest.length ≠ 1)
      (h : Cut T train destOffset pad true rest ts) :
      Cut T train destOffset pad true (n :: rest) (.reverse :: ts)

section Loop

variable {T : Track} {pad : Option NodeNum} {train : TrainNum} {destOffset : Int32}
  {st st' : SegmentState}

theorem Fifo.items_push_ne_nil {α : Type*} {q : Fifo α} {k : ℕ} (h : q.capacity = some k)
    (h_k : 0 < k) (x : α) : (q.push x).items ≠ [] := by
  unfold Fifo.push
  split
  · next h_full =>
    intro h_nil
    rw [h, Fifo.count, h_nil] at h_full
    exact absurd (Option.some.inj h_full) (Nat.ne_of_gt h_k)
  · simp

theorem addNavigationTask_cut {offset : Int32} (h_segment : st.segment.items ≠ [])
    (h : addNavigationTask T train offset st = .ok st') : ∃ task, TaskFor T train offset task ∧
      st' = { st with
        navigationTasks := st.navigationTasks.push (.straight task)
        hadFirstTask := true } := by
  unfold addNavigationTask at h
  split at h
  · exact ⟨_, ⟨rfl, h_segment, rfl⟩, (Except.ok.inj h).symm⟩
  · cases h

/-- Buffer nodes do not change the capacity of a segment, and do not make it empty, also where there
is no room for all of them. -/
theorem addBufferNodes_capacity {segment segment' : Fifo NodeNum} {n : Option NodeNum} {b : Bool}
    (h : addBufferNodes T segment n b = .ok segment') : segment'.capacity = segment.capacity ∧
      (segment.items ≠ [] → segment'.items ≠ []) := by
  -- a push onto a full segment changes nothing, so a segment never gets empty
  have h_pushAll : ∀ (row : List NodeNum) (q : Fifo NodeNum), q.items ≠ [] →
      (q.pushAll row).items ≠ [] := by
    intro row
    induction row with
    | nil => exact fun _ h => h
    | cons x row ih =>
      intro q h_q
      refine ih (q.push x) ?_
      unfold Fifo.push
      split
      · exact h_q
      · simp
  unfold addBufferNodes at h
  split at h
  · cases h
  · split at h
    · obtain rfl := Except.ok.inj h
      exact ⟨Fifo.capacity_pushAll _ _, h_pushAll _ _⟩
    · obtain rfl := Except.ok.inj h
      exact ⟨Fifo.capacity_pushAll _ _, h_pushAll _ _⟩

theorem augment_cut (h : augment T st = .ok st') : st'.navigationTasks = st.navigationTasks ∧
    st'.segment.capacity = st.segment.capacity := by
  refine ⟨augment_tasks h, ?_⟩
  unfold augment at h
  split at h
  · obtain ⟨segment, h_buffer, h⟩ := of_bind_ok h
    obtain rfl := Except.ok.inj h
    exact (addBufferNodes_capacity h_buffer).1
  · obtain rfl := Except.ok.inj h
    rfl

theorem endAtMerge_cut {n : NodeNum} (h_segment : st.segment.items ≠ [])
    (h : endAtMerge T train n st = .ok st') : ∃ task, TaskFor T train 0 task ∧
      st'.navigationTasks = st.navigationTasks.push (.straight task) ∧
      st'.segment.capacity = st.segment.capacity ∧ st'.segment.items = [] := by
  obtain ⟨segment, h_buffer, h⟩ := of_bind_ok h
  obtain ⟨h_cap, h_ne⟩ := addBufferNodes_capacity h_buffer
  obtain ⟨st₁, h_add, h⟩ := of_bind_ok h
  obtain ⟨task, h_task, rfl⟩ := addNavigationTask_cut (h_ne h_segment) h_add
  obtain rfl := Except.ok.inj h
  exact ⟨task, h_task, rfl, h_cap, rfl⟩

/-! ### Runs of the loop -/

/-- A run of the loop that comes to its end, one constructor for each way through the body: the
nodes that are left, and the states before and after. -/
inductive LoopRun (T : Track) (train : TrainNum) (destOffset : Int32) (pad : Option NodeNum) :
    List NodeNum → SegmentState → SegmentState → Prop
  | nil {st : SegmentState} : LoopRun T train destOffset pad [] st st
  /-- The route ends with a reversal, behind a segment. -/
  | endTurn {n : NodeNum} {rest : List NodeNum} {st st₁ : SegmentState}
      (h_turn : rest.head?.or pad = some (T.reverse n)) (h_last : rest.length = 1)
      (h_segment : st.segment.items ≠ [])
      (h_add : addNavigationTask T train (destOffset * -1) (st.push n) = .ok st₁) :
      LoopRun T train destOffset pad (n :: rest) st st₁.clear.pushReverse
  | endReverse {n : NodeNum} {rest : List NodeNum} {st : SegmentState}
      (h_turn : rest.head?.or pad = some (T.reverse n)) (h_last : rest.length = 1)
      (h_segment : st.segment.items = []) :
      LoopRun T train destOffset pad (n :: rest) st st.pushReverse
  /-- The segment ends at a merge. -/
  | turn {n : NodeNum} {rest : List NodeNum} {st st₁ st' : SegmentState}
      (h_turn : rest.head?.or pad = some (T.reverse n)) (h_more : rest.length ≠ 1)
      (h_segment : st.segment.items ≠ [])
      (h_end : endAtMerge T train n (st.push n) = .ok st₁)
      (h : LoopRun T train destOffset pad rest st₁.pushReverse st') :
      LoopRun T train destOffset pad (n :: rest) st st'
  | reverse {n : NodeNum} {rest : List NodeNum} {st st' : SegmentState}
      (h_turn : rest.head?.or pad = some (T.reverse n)) (h_more : rest.length ≠ 1)
      (h_segment : st.segment.items = [])
      (h : LoopRun T train destOffset pad rest st.pushReverse st') :
    LoopRun T train destOffset pad (n :: rest) st st'
  | last {n : NodeNum} {st st₁ st₂ : SegmentState}
      (h_go : ¬([] : List NodeNum).head?.or pad = some (T.reverse n))
    (h_augment : augment T st = .ok st₁)
    (h_add : addNavigationTask T train destOffset (st₁.push n) = .ok st₂) :
      LoopRun T train destOffset pad [n] st st₂.clear
  /-- The node goes into the segment. -/
  | go {n : NodeNum} {rest : List NodeNum} {st st₁ st' : SegmentState}
      (h_go : ¬rest.head?.or pad = some (T.reverse n)) (h_more : rest ≠ [])
      (h_augment : augment T st = .ok st₁)
      (h : LoopRun T train destOffset pad rest (st₁.push n) st') :
    LoopRun T train destOffset pad (n :: rest) st st'

/-- A loop that goes through is a run of its branches. From here on its proofs are inductions on
`LoopRun`, with one case for each branch and no condition to be split. -/
theorem loopRun_of_ok {nodes : List NodeNum}
    (h : segmentsLoop T train destOffset pad nodes st = .ok st') :
    LoopRun T train destOffset pad nodes st st' := by
  have h_count : ∀ q : Fifo NodeNum, q.count ≥ 1 ↔ q.items ≠ [] := by
    intro q
    exact List.length_pos_iff
  induction nodes generalizing st with
  | nil =>
    obtain rfl := Except.ok.inj h
    exact .nil
  | cons n rest ih =>
    rw [segmentsLoop] at h
    split at h
    · -- the next node is the reverse: the segment, if there is one, ends here
      next h_turn =>
      split at h
      · -- a segment ends here, with the route or at a merge
        next h_one =>
        have h_segment := (h_count _).mp h_one
        split at h
        · next h_last =>
          obtain ⟨st₁, h_add, h⟩ := of_bind_ok h
          obtain rfl := Except.ok.inj h
          exact .endTurn h_turn h_last h_segment h_add
        · next h_more =>
          obtain ⟨st₁, h_end, h⟩ := of_bind_ok h
          exact .turn h_turn h_more h_segment h_end (ih h)
      · -- there is no segment, and only the reversal is queued
        next h_none =>
        have h_segment : st.segment.items = [] :=
          not_not.mp fun h_ne => h_none ((h_count _).mpr h_ne)
        split at h
        · next h_last =>
          obtain rfl := Except.ok.inj h
          exact .endReverse h_turn h_last h_segment
        · next h_more => exact .reverse h_turn h_more h_segment (ih h)
    · -- the node goes into the segment, which ends only with the route
      next h_go =>
      obtain ⟨st₁, h_augment, h_body⟩ := of_bind_ok h
      dsimp only at h_body
      split at h_body
      · next h_rest =>
        subst h_rest
        obtain ⟨st₂, h_add, h_clear⟩ := of_bind_ok h_body
        obtain rfl := Except.ok.inj h_clear
        exact .last h_go h_augment h_add
      · next h_rest => exact .go h_go h_rest h_augment (ih h_body)

/-- The queue behind the task and the reversal of a turn. -/
theorem pushAll_turn {st₁ : SegmentState} {task : NavigationTask} {new : List NavigationTask}
    (h_tasks : st₁.navigationTasks = st.navigationTasks.push task)
    (h_new : st'.navigationTasks = st₁.pushReverse.navigationTasks.pushAll new) :
    st'.navigationTasks = st.navigationTasks.pushAll (task :: .reverse :: new) := by
  rw [h_new]
  change (st₁.navigationTasks.push .reverse).pushAll new = _
  rw [h_tasks]
  rfl

/-- The loop from any point of a route on queues a cut of what is left. The segment in front of a
turn becomes a straight task, if there is one, and the turn a reversal behind it. -/
theorem segmentsLoop_cut {nodes : List NodeNum} (h_cap : st.segment.capacity = some trackMax)
    (h : segmentsLoop T train destOffset pad nodes st = .ok st') :
    ∃ new, st'.navigationTasks = st.navigationTasks.pushAll new ∧
      Cut T train destOffset pad (st.segment.items = []) nodes new := by
  -- with a node in it the segment is no longer empty
  have h_push : ∀ (st : SegmentState) (n : NodeNum), st.segment.capacity = some trackMax →
      (st.push n).segment.items ≠ [] ∧ (st.push n).segment.capacity = some trackMax := by
    intro st n h_cap
    exact ⟨Fifo.items_push_ne_nil h_cap (by decide) n, (Fifo.capacity_push _ _).trans h_cap⟩
  have h_run := loopRun_of_ok h
  clear h
  induction h_run with
  | nil => exact ⟨[], rfl, .nil⟩
  | @endTurn n rest st st₁ h_turn h_last h_segment h_add =>
    -- one node is left, and it is the other side of `n`
    obtain ⟨m, rfl⟩ := List.length_eq_one_iff.mp h_last
    obtain rfl : m = T.reverse n := Option.some.inj h_turn
    obtain ⟨task, h_task, rfl⟩ := addNavigationTask_cut (h_push st n h_cap).1 h_add
    refine ⟨[.straight task, .reverse], rfl, ?_⟩
    rw [decide_eq_false h_segment]
    exact .endTurn h_task
  | @endReverse n rest st h_turn h_last h_segment =>
    obtain ⟨m, rfl⟩ := List.length_eq_one_iff.mp h_last
    obtain rfl : m = T.reverse n := Option.some.inj h_turn
    refine ⟨[.reverse], rfl, ?_⟩
    rw [decide_eq_true h_segment]
    exact .endReverse
  -- the segment in front of the turn becomes a straight task
  | @turn n rest st st₁ st' h_turn h_more h_segment h_end h ih =>
    obtain ⟨h_ne, h_cap_push⟩ := h_push st n h_cap
    obtain ⟨task, h_task, h_tasks, h_cap₁, h_nil⟩ := endAtMerge_cut h_ne h_end
    obtain ⟨new, h_new, h_cut⟩ := ih (h_cap₁.trans h_cap_push)
    have h_nil' : st₁.pushReverse.segment.items = [] := h_nil
    refine ⟨.straight task :: .reverse :: new, pushAll_turn h_tasks h_new, ?_⟩
    rw [decide_eq_true h_nil'] at h_cut
    rw [decide_eq_false h_segment]
    exact .turn h_turn h_more h_task h_cut
  | @reverse n rest st st' h_turn h_more h_segment h ih =>
    obtain ⟨new, h_new, h_cut⟩ := ih h_cap
    have h_nil : st.pushReverse.segment.items = [] := h_segment
    refine ⟨.reverse :: new, h_new, ?_⟩
    rw [decide_eq_true h_nil] at h_cut
    rw [decide_eq_true h_segment]
    exact .reverse h_turn h_more h_cut
  | @last n st st₁ st₂ h_go h_augment h_add =>
    obtain ⟨h_tasks, h_cap₁⟩ := augment_cut h_augment
    obtain ⟨task, h_task, rfl⟩ := addNavigationTask_cut (h_push st₁ n (h_cap₁.trans h_cap)).1 h_add
    refine ⟨[.straight task], ?_, .last h_task⟩
    change st₁.navigationTasks.push _ = _
    rw [h_tasks]
    rfl
  -- the segment goes on, with nothing queued
  | @go n rest st st₁ st' h_go h_more h_augment h ih =>
    obtain ⟨h_tasks, h_cap₁⟩ := augment_cut h_augment
    obtain ⟨h_ne, h_cap_push⟩ := h_push st₁ n (h_cap₁.trans h_cap)
    obtain ⟨new, h_new, h_cut⟩ := ih h_cap_push
    obtain ⟨m, rest, rfl⟩ := List.exists_cons_of_ne_nil h_more
    rw [decide_eq_false h_ne] at h_cut
    refine ⟨new, ?_, .go h_cut⟩
    rw [h_new]
    change st₁.navigationTasks.pushAll new = _
    rw [h_tasks]

/-- The loop fails only where a segment does not fit, or has no buffer nodes. Every step of it that
can fail is one of four calls, and these have the two faults in common. -/
theorem segmentsLoop_fault {nodes : List NodeNum} {fault : Fault}
    (h : segmentsLoop T train destOffset pad nodes st = .error fault) :
    fault = .pathOverrun ∨ fault = .bufferRow := by
  -- the path of a task is full
  have h_add : ∀ {offset : Int32} {st : SegmentState},
      addNavigationTask T train offset st = .error fault →
        fault = .pathOverrun ∨ fault = .bufferRow := by
    intro offset st h
    unfold addNavigationTask at h
    split at h
    · cases h
    · exact .inl (Except.error.inj h).symm
  -- there is no row of buffer nodes
  have h_buffer : ∀ {segment : Fifo NodeNum} {n : Option NodeNum} {forward : Bool},
      addBufferNodes T segment n forward = .error fault →
        fault = .pathOverrun ∨ fault = .bufferRow := by
    intro segment n forward h
    unfold addBufferNodes at h
    split at h
    · exact .inr (Except.error.inj h).symm
    · split at h <;> cases h
  have h_end : ∀ {n : NodeNum} {st : SegmentState}, endAtMerge T train n st = .error fault →
      fault = .pathOverrun ∨ fault = .bufferRow := by
    intro n st h
    obtain h | ⟨segment, -, h⟩ := of_bind_error h
    · exact h_buffer h
    · obtain h | ⟨st₁, -, h⟩ := of_bind_error h
      · exact h_add h
      · cases h
  have h_augment : ∀ {st : SegmentState}, augment T st = .error fault →
      fault = .pathOverrun ∨ fault = .bufferRow := by
    intro st h
    unfold augment at h
    split at h
    · obtain h | ⟨segment, -, h⟩ := of_bind_error h
      · exact h_buffer h
      · cases h
    · cases h
  -- each step of the loop that can fail is one of the four above
  induction nodes generalizing st with
  | nil => cases h
  | cons n rest ih =>
    rw [segmentsLoop] at h
    split at h
    · split at h
      · split at h
        · obtain h | ⟨st₁, -, h⟩ := of_bind_error h
          · exact h_add h
          · cases h
        · obtain h | ⟨st₁, -, h⟩ := of_bind_error h
          · exact h_end h
          · exact ih h
      · split at h
        · cases h
        · exact ih h
    · obtain h | ⟨st₁, -, h⟩ := of_bind_error h
      · exact h_augment h
      · dsimp only at h
        split at h
        · obtain h | ⟨st₂, -, h⟩ := of_bind_error h
          · exact h_add h
          · cases h
        · exact ih h

end Loop

theorem segmentsFillNavigationTasks_fault {T : Track} {path : RoutePath}
    {tasks : Fifo NavigationTask} {train : TrainNum} {destOffset : Int32} {fault : Fault}
    (h : segmentsFillNavigationTasks T path tasks train destOffset = .error fault) :
    fault = .pathOverrun ∨ fault = .bufferRow := by
  obtain h | ⟨st, -, h⟩ := of_bind_error h
  · exact segmentsLoop_fault h
  · cases h

/-- **The queue after a route has been cut**: behind what it held come the tasks of the route, as
far as there is room, and these are a cut of it. -/
theorem segmentsFillNavigationTasks_cut {T : Track} {path : RoutePath}
    {tasks tasks' : Fifo NavigationTask} {train : TrainNum} {destOffset : Int32}
    (h : segmentsFillNavigationTasks T path tasks train destOffset = .ok tasks') :
    ∃ new, tasks' = tasks.pushAll new ∧
      Cut T train destOffset path.padding.head? true path.nodes new := by
  obtain ⟨st', h_loop, h⟩ := of_bind_ok h
  obtain rfl := Except.ok.inj h
  exact segmentsLoop_cut rfl h_loop

namespace Cut

variable {T : Track} {train : TrainNum} {destOffset : Int32} {pad : Option NodeNum} {empty : Bool}
  {nodes : List NodeNum} {ts : List NavigationTask}

theorem ne_nil (h : Cut T train destOffset pad empty nodes ts) (h_nodes : nodes ≠ []) :
    ts ≠ [] := by
  induction h with
  | nil => exact absurd rfl h_nodes
  | go h ih => exact ih (List.cons_ne_nil _ _)
  | last | endTurn | endReverse | turn | reverse => simp

/-- Every STRAIGHT task is one for a segment, with one of three offsets. -/
theorem taskFor (h : Cut T train destOffset pad empty nodes ts) {task : StraightpathTask}
    (h_mem : .straight task ∈ ts) : ∃ offset, TaskFor T train offset task := by
  induction h with
  | nil => simp at h_mem
  | last h_task =>
    obtain rfl : task = _ := by simpa using h_mem
    exact ⟨_, h_task⟩
  | go h ih => exact ih h_mem
  | endTurn h_task =>
    obtain rfl : task = _ := by simpa using h_mem
    exact ⟨_, h_task⟩
  | endReverse => simp at h_mem
  -- the task is the one before the reversal, or comes later
  | turn h_turn h_more h_task h ih =>
    simp only [List.mem_cons, NavigationTask.straight.injEq, reduceCtorEq, false_or] at h_mem
    obtain rfl | h_mem := h_mem
    · exact ⟨_, h_task⟩
    · exact ih h_mem
  | reverse h_turn h_more h ih => exact ih (by simpa using h_mem)

/-- No reversal is followed by another. -/
def Alternates (ts : List NavigationTask) : Prop :=
  ts.IsChain fun a b => ¬(a = .reverse ∧ b = .reverse)

/-- The tasks begin with a reversal only if the route does. -/
theorem turns_of_head (h : Cut T train destOffset pad true nodes ts)
    (h_head : ts.head? = some .reverse) :
    ∃ n rest, nodes = n :: rest ∧ rest.head?.or pad = some (T.reverse n) := by
  cases h with
  | nil => cases h_head
  | last => cases h_head
  | @go _ n m rest ts h =>
    -- the segment is not empty any more, so a STRAIGHT task comes first
    exfalso
    generalize h_nodes : m :: rest = nodes at h
    generalize h_empty : false = empty at h
    induction h generalizing m rest with
    | nil => cases h_nodes
    | last | endTurn | turn => cases h_head
    | go h ih => exact ih h_head rfl rfl
    | endReverse | reverse => cases h_empty
  | endReverse => exact ⟨_, _, rfl, rfl⟩
  | reverse h_turn => exact ⟨_, _, rfl, h_turn⟩

/-- No two reversals come one behind the other: the route comes to no node twice, so it does not
turn around at a node that it has just come from. -/
theorem alternates (h : Cut T train destOffset pad empty nodes ts) (h_nodup : nodes.Nodup) :
    Alternates ts := by
  -- what comes behind a reversal at `n` does not begin with one
  have h_next : ∀ {n : NodeNum} {rest : List NodeNum} {ts : List NavigationTask},
      (n :: rest).Nodup → rest.head?.or pad = some (T.reverse n) → rest.length ≠ 1 →
      Cut T train destOffset pad true rest ts → ts.head? ≠ some .reverse := by
    intro n rest ts h_nodup h_turn h_more h_cut h_head
    obtain ⟨m, tail, rfl, h_back⟩ := h_cut.turns_of_head h_head
    obtain rfl : m = T.reverse n := Option.some.inj h_turn
    rw [T.reverse_reverse'] at h_back
    cases tail with
    | nil => exact h_more rfl
    | cons k tail =>
      obtain rfl : k = n := Option.some.inj h_back
      simp at h_nodup
  induction h with
  | nil => exact .nil
  | last => exact .singleton _
  | go h ih => exact ih h_nodup.of_cons
  | endTurn => exact .cons_cons (by simp) (.singleton _)
  | endReverse => exact .singleton _
  -- a straight task in front of a reversal cannot make two reversals in a row
  | turn h_turn h_more h_task h ih =>
    refine .cons_cons (by simp) (List.isChain_cons.mpr ⟨fun b h_b => ?_, ih h_nodup.of_cons⟩)
    rintro ⟨-, rfl⟩
    exact h_next h_nodup h_turn h_more h h_b
  | reverse h_turn h_more h ih =>
    refine List.isChain_cons.mpr ⟨fun b h_b => ?_, ih h_nodup.of_cons⟩
    rintro ⟨-, rfl⟩
    exact h_next h_nodup h_turn h_more h h_b

end Cut

end Nav
end PollingExpress
