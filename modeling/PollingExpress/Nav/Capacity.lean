import PollingExpress.Nav.Cut
import PollingExpress.Nav.Drivable

/-!
# What a route has room for

A segment is collected in a buffer of `TRACK_MAX` nodes and copied into the array of a task, which
is shorter, and the tasks go into a queue of `MAX_NAVIGATION_TASKS`. `cb_push_back` says when a
buffer is full, and nobody looks at what it says.

`PushesFit` says that each push finds room; `notTruncated_iff` says for which routes this is so. The
tasks that the loop queues do not depend on what is in the queue already (`segmentsLoop_beside`), so
what a route should come to is what it comes to with a queue without a bound.
-/

namespace PollingExpress
namespace Nav

open Search (Finds)

/-- Each `cb_push_back` finds room, from a point of a route on. -/
def PushesFit (T : Track) (train : TrainNum) (destOffset : Int32) (pad : Option NodeNum) :
    List NodeNum → SegmentState → Prop
  | [], _ => True
  | n :: rest, st =>
    if rest.head?.or pad = some (T.reverse n) then
      if st.segment.count ≥ 1 then
        -- the node itself, and the task and the reversal behind it
        if rest.length = 1 then st.segment.Room 1 ∧ st.navigationTasks.Room 2
        else st.navigationTasks.Room 2 ∧
          (∀ row, T.bufferRow n = some row → st.segment.Room (1 + row.length)) ∧
          ∀ st', endAtMerge T train n (st.push n) = .ok st' →
          PushesFit T train destOffset pad rest st'.pushReverse
      else if rest.length = 1 then st.navigationTasks.Room 1
      else st.navigationTasks.Room 1 ∧ PushesFit T train destOffset pad rest st.pushReverse
    else
      (st.cameFromReverse = true → ∀ row, st.mergeNodeNum.bind T.bufferRow = some row →
        st.segment.Room row.length) ∧
      ∀ st', augment T st = .ok st' → st'.segment.Room 1 ∧
        if rest = [] then st'.navigationTasks.Room 1 else PushesFit T train destOffset pad rest
          (st'.push n)

/-- No capacity cuts the route: the tasks are queued behind what is in the queue, just as they are
without a bound on it, each push finds room, and so does the path of each task.

The three bounds are those of the queue of the train, of the segment that is put together, and of
the path in a task. -/
structure NotTruncated (T : Track) (path : RoutePath) (tasks : Fifo NavigationTask)
    (train : TrainNum) (destOffset : Int32) : Prop where
  queued : ∃ new, segmentsFillNavigationTasks T path (.empty none) train destOffset =
    .ok ⟨new, none⟩ ∧
    segmentsFillNavigationTasks T path tasks train destOffset =
      .ok { tasks with items := tasks.items ++ new }
  pushes : PushesFit T train destOffset path.padding.head? path.nodes (startState tasks)

/-- How many tasks the rest of a route comes to: one for each segment and one for each reversal. -/
def taskCount (T : Track) (pad : Option NodeNum) : Bool → List NodeNum → ℕ
  | _, [] => 0
  | inSegment, n :: rest =>
    if rest.head?.or pad = some (T.reverse n) then
      (if inSegment then 2 else 1) + if rest.length = 1 then 0 else taskCount T pad false rest
    else if rest = [] then 1
    else taskCount T pad true rest

/-! ### The tasks, whatever is in the queue -/

/-- Two states that differ in the queue only, onto which the same tasks have been pushed. What is in
a queue before a route comes has no part in how the route is cut, so the tasks can be counted beside
an unbounded one. -/
structure Beside (q q' : Fifo NavigationTask) (st st' : SegmentState) : Prop where
  segment : st.segment = st'.segment
  cameFromReverse : st.cameFromReverse = st'.cameFromReverse
  mergeNodeNum : st.mergeNodeNum = st'.mergeNodeNum
  hadFirstTask : st.hadFirstTask = st'.hadFirstTask
  tasks : ∃ new, st.navigationTasks = q.pushAll new ∧ st'.navigationTasks = q'.pushAll new

section
variable {T : Track} {train : TrainNum} {destOffset : Int32} {pad : Option NodeNum}
  {q q' : Fifo NavigationTask} {st st' : SegmentState}

theorem pushAll_snoc (q : Fifo NavigationTask) (ts : List NavigationTask) (t : NavigationTask) :
    (q.pushAll ts).push t = q.pushAll (ts ++ [t]) := by
  rw [Fifo.pushAll, Fifo.pushAll, List.foldl_append]
  rfl

namespace Beside

theorem push (h : Beside q q' st st') (n : NodeNum) : Beside q q' (st.push n) (st'.push n) :=
  ⟨congrArg (fun s => s.push n) h.segment, h.cameFromReverse, h.mergeNodeNum,
    h.hadFirstTask, h.tasks⟩

theorem clear (h : Beside q q' st st') : Beside q q' st.clear st'.clear :=
  ⟨congrArg Fifo.clear h.segment, h.cameFromReverse, h.mergeNodeNum, h.hadFirstTask, h.tasks⟩

theorem pushReverse (h : Beside q q' st st') : Beside q q' st.pushReverse st'.pushReverse := by
  obtain ⟨new, h_new, h_new'⟩ := h.tasks
  refine ⟨h.segment, h.cameFromReverse, h.mergeNodeNum, h.hadFirstTask, new ++ [.reverse], ?_, ?_⟩
  · rw [← pushAll_snoc, ← h_new]
    rfl
  · rw [← pushAll_snoc, ← h_new']
    rfl

theorem addNavigationTask (h : Beside q q' st st') (offset : Int32) :
    Agree (Beside q q') (addNavigationTask T train offset st)
      (addNavigationTask T train offset st') := by
  obtain ⟨segment, came, merge, hadFirst, tasks⟩ := st
  obtain ⟨segment', came', merge', hadFirst', tasks'⟩ := st'
  obtain ⟨h_segment, h_came, h_merge, h_first, new, h_new, h_new'⟩ := h
  dsimp only at h_segment h_came h_merge h_first h_new h_new'
  subst h_segment h_came h_merge h_first h_new h_new'
  unfold Nav.addNavigationTask
  -- whether the segment fits does not depend on the queue
  by_cases h_fits : segment.items.length ≤ maxTaskPath
  · rw [dif_pos h_fits, dif_pos h_fits]
    exact ⟨rfl, rfl, rfl, rfl, new ++ [.straight _], pushAll_snoc q new _, pushAll_snoc q' new _⟩
  · rw [dif_neg h_fits, dif_neg h_fits]
    exact rfl

theorem addBufferNodes (h : Beside q q' st st') (n : Option NodeNum) (forward : Bool) :
    Agree Eq (addBufferNodes T st.segment n forward) (addBufferNodes T st'.segment n forward) := by
  rw [h.segment]
  cases Nav.addBufferNodes T st'.segment n forward with
  | error fault => exact rfl
  | ok segment => exact rfl

theorem endAtMerge (h : Beside q q' st st') (n : NodeNum) :
    Agree (Beside q q') (endAtMerge T train n st) (endAtMerge T train n st') := by
  refine (h.addBufferNodes (some n) true).bind fun segment segment' h_segment => ?_
  subst h_segment
  have h_filled : Beside q q' { st with segment, mergeNodeNum := some n, cameFromReverse := true }
      { st' with segment, mergeNodeNum := some n, cameFromReverse := true } :=
    ⟨rfl, rfl, rfl, h.hadFirstTask, h.tasks⟩
  exact (h_filled.addNavigationTask 0).bind fun _ _ h => h.clear

theorem augment (h : Beside q q' st st') : Agree (Beside q q') (augment T st) (augment T st') := by
  unfold Nav.augment
  rw [← h.cameFromReverse, ← h.mergeNodeNum]
  by_cases h_came : st.cameFromReverse = true
  · rw [if_pos h_came, if_pos h_came]
    refine (h.addBufferNodes st.mergeNodeNum false).bind fun segment segment' h_segment => ?_
    subst h_segment
    exact ⟨rfl, rfl, rfl, h.hadFirstTask, h.tasks⟩
  · rw [if_neg h_came, if_neg h_came]
    exact h

end Beside

/-- **The loop queues the same tasks** beside whatever is in the queue. The branches are taken on
the nodes and on the segment, which both states share; so both go through, or fail at the same
place. -/
theorem segmentsLoop_beside {nodes : List NodeNum} (h : Beside q q' st st') :
    Agree (Beside q q') (segmentsLoop T train destOffset pad nodes st)
      (segmentsLoop T train destOffset pad nodes st') := by
  induction nodes generalizing st st' with
  | nil => exact h
  | cons n rest ih =>
    rw [segmentsLoop, segmentsLoop, ← h.segment]
    -- the branches of the loop are taken on the node and the segment, which both states share
    split
    · -- the node in front of a reversal: with the train on a segment, or not
      split
      · split
        · exact ((h.push n).addNavigationTask _).bind fun _ _ h => h.clear.pushReverse
        · exact ((h.push n).endAtMerge n).bind fun _ _ h => ih h.pushReverse
      · split
        · exact h.pushReverse
        · exact ih h.pushReverse
    · -- any other node, which is the last one or goes into the segment
      refine h.augment.bind fun st₁ st₁' h => ?_
      dsimp only
      split
      · exact ((h.push n).addNavigationTask _).bind fun _ _ h => h.clear
      · exact ih (h.push n)

theorem segmentsFillNavigationTasks_beside (path : RoutePath) (train : TrainNum)
    (destOffset : Int32) :
    Agree (fun r r' => ∃ new, r = q.pushAll new ∧ r' = q'.pushAll new)
      (segmentsFillNavigationTasks T path q train destOffset)
      (segmentsFillNavigationTasks T path q' train destOffset) := by
  have h_start : Beside q q' (startState q) (startState q') := ⟨rfl, rfl, rfl, rfl, [], rfl, rfl⟩
  exact (segmentsLoop_beside h_start).bind fun _ _ h => h.tasks

/-! ### Room along the route -/

variable {segment before : List NodeNum} {inSegment : Bool}

theorem AtSegment.room (h : AtSegment T st segment before) {k : ℕ}
    (h_le : segment.length + k ≤ maxTaskPath) :
    st.segment.Room k := by
  intro c h_c
  obtain rfl : trackMax = c := Option.some.inj (h.capacity.symm.trans h_c)
  have h_max : maxTaskPath ≤ trackMax := by decide
  have h_count : st.segment.count ≤ segment.length := by
    rw [Fifo.count, h.items]
    exact List.length_take_le' _ _
  omega

/-- A node that has gone into a segment that fits has found room. -/
theorem AtSegment.room_of_push {n : NodeNum} (h : AtSegment T (st.push n) segment before)
    (h_le : segment.length ≤ maxTaskPath) : st.segment.Room 1 := by
  have h_room := h.room (k := 1)
  intro c h_c
  have h_cap : c = trackMax := by
    have h_push : st.segment.capacity = some trackMax :=
      (Fifo.capacity_push st.segment n).symm.trans h.capacity
    exact Option.some.inj (h_c.symm.trans h_push)
  -- the segment has room for more than a task can take, so nothing has been dropped from it
  have h_max : maxTaskPath < trackMax := by decide
  have h_items : (st.segment.push n).items = segment.take trackMax := h.items
  have h_length := congrArg List.length h_items
  rw [List.length_take] at h_length
  have h_count : st.segment.items.length ≤ (st.segment.push n).items.length := by
    unfold Fifo.push
    split
    · exact le_rfl
    · rw [List.length_append]
      exact Nat.le_add_right _ _
  change st.segment.items.length + 1 ≤ c
  omega

/-- What is in the segment fits, if the segment does. -/
theorem Fits.le {k : ℕ} {n : NodeNum} {rest : List NodeNum} (h : Fits T pad true k (n :: rest)) :
    k + 1 ≤ maxTaskPath := by
  -- the segment is only checked where it ends, and it grows up to there
  induction rest generalizing k n with
  | nil =>
    rw [Fits, if_pos rfl, if_pos rfl] at h
    split at h
    · obtain ⟨row, -, h_le, -⟩ := h
      omega
    · exact h
  | cons m rest ih =>
    rw [Fits, if_pos rfl] at h
    split at h
    · split at h
      · exact h
      · obtain ⟨row, -, h_le, -⟩ := h
        omega
    · have h_next := ih h
      omega

/-- The segment ends at a merge, in front of `rest`: the queue gets the task and the reversal. These
are two places of what is asked for, and the rest of the route asks for the others. -/
theorem pushesFit_merge {n : NodeNum} {row rest : List NodeNum} {k : ℕ}
    (h : AtSegment T st segment []) (h_segment : segment ≠ []) (h_row : T.bufferRow n = some row)
    (h_le : (segment ++ [n] ++ row).length ≤ maxTaskPath)
    (h_rest : ∀ st₁, AtSegment T st₁ [] (flip T row) → st₁.navigationTasks.Room 0 →
      (PushesFit T train destOffset pad rest st₁ ↔ st₁.navigationTasks.Room k)) :
    (st.navigationTasks.Room 2 ∧
      (∀ row', T.bufferRow n = some row' → st.segment.Room (1 + row'.length)) ∧
      ∀ st', endAtMerge T train n (st.push n) = .ok st' →
      PushesFit T train destOffset pad rest st'.pushReverse) ↔
    st.navigationTasks.Room (2 + k) := by
  have h_segment_room : ∀ row', T.bufferRow n = some row' → st.segment.Room (1 + row'.length) := by
    intro row' h_row'
    obtain rfl := Option.some.inj (h_row.symm.trans h_row')
    rw [List.length_append, List.length_append, List.length_singleton] at h_le
    exact h.room (by omega)
  -- the segment with its buffer nodes fits, so there is a task for it
  obtain ⟨st₁, task, h_end, -, h_tasks, h_at⟩ :=
    ((h.push h_segment n).endAtMerge train h_row).1 h_le
  have h_at' : AtSegment T st₁.pushReverse [] (flip T row) :=
    ⟨h_at.capacity, h_at.items, h_at.pending⟩
  -- the queue with the task and the reversal in it
  have h_new : st₁.pushReverse.navigationTasks =
      st.navigationTasks.pushAll [.straight task, .reverse] := by
    change st₁.navigationTasks.push _ = _
    rw [h_tasks]
    rfl
  -- room for these two and for what the rest asks for
  refine @Fifo.room_and_iff _ _ _ [.straight task, .reverse] _ _ h_new fun h_count => ?_
  rw [← h_rest st₁.pushReverse h_at' h_count]
  constructor
  · exact fun h_all => h_all.2 st₁ h_end
  · refine fun h_push => ⟨h_segment_room, fun st₂ h_st₂ => ?_⟩
    obtain rfl := Except.ok.inj (h_end.symm.trans h_st₂)
    exact h_push

/-- A node goes into the segment, behind the buffer nodes if there are any to come first; `P` is
what follows. -/
theorem pushesFit_node {P : SegmentState → Prop} {k : ℕ} (h : AtSegment T st segment before)
    (n : NodeNum) (h_le : before.length + segment.length + 1 ≤ maxTaskPath)
    (h_rest : ∀ st₁, AtSegment T (st₁.push n) (before ++ segment ++ [n]) [] →
      st₁.navigationTasks = st.navigationTasks → (P st₁ ↔ st.navigationTasks.Room k)) :
    ((st.cameFromReverse = true → ∀ row, st.mergeNodeNum.bind T.bufferRow = some row →
      st.segment.Room row.length) ∧
      ∀ st', augment T st = .ok st' → st'.segment.Room 1 ∧ P st') ↔ st.navigationTasks.Room k := by
  obtain ⟨st₁, h_augment, h_at, h_tasks⟩ := h.augment_push n
  have h_buffers : st.cameFromReverse = true → ∀ row, st.mergeNodeNum.bind T.bufferRow = some row →
      st.segment.Room row.length := by
    intro h_came row h_row
    -- either the buffer nodes are in already, or the segment is empty and they come first
    obtain ⟨h_no, -⟩ | ⟨-, rfl, m, row', h_merge, h_row', rfl⟩ := h.pending
    · rw [h_no] at h_came
      cases h_came
    · rw [h_merge, Option.bind_some] at h_row
      obtain rfl := Option.some.inj (h_row'.symm.trans h_row)
      refine h.room ?_
      simp only [flip, List.length_map, List.length_reverse, List.length_nil] at h_le ⊢
      omega
  have h_one : st₁.segment.Room 1 := h_at.room_of_push (by
    rw [List.length_append, List.length_append]
    exact h_le)
  -- both pushes to the segment find room, so only what follows is asked
  rw [← h_rest st₁ h_at h_tasks]
  constructor
  · exact fun h_all => (h_all.2 st₁ h_augment).2
  · refine fun h_p => ⟨h_buffers, fun st₂ h_st₂ => ?_⟩
    obtain rfl := Except.ok.inj (h_augment.symm.trans h_st₂)
    exact ⟨h_one, h_p⟩

/-- **Each push finds room**, if the segments fit, exactly if there is room for the tasks. The tasks
that the rest of a route leads to are counted along it (`taskCount`), and each push takes one place
of what the count asks for. -/
theorem pushesFit_iff {nodes : List NodeNum} (h : AtSegment T st segment before)
    (h_in : inSegment = true ↔ segment ≠ []) (h_before : segment ≠ [] → before = [])
    (h_fits : Fits T pad inSegment (before.length + segment.length) nodes)
    (h_count : st.navigationTasks.Room 0) :
    PushesFit T train destOffset pad nodes st ↔
      st.navigationTasks.Room (taskCount T pad inSegment nodes) := by
  induction nodes generalizing st segment before inSegment with
  | nil => exact ⟨fun _ => h_count, fun _ => trivial⟩
  | cons n rest ih =>
    rw [PushesFit, taskCount]
    rw [Fits] at h_fits
    by_cases h_turn : rest.head?.or pad = some (T.reverse n)
    · -- a reversal comes next
      rw [if_pos h_turn] at h_fits ⊢
      rw [if_pos h_turn]
      by_cases h_segment : segment = []
      · -- only a reversal is queued
        have h_false : ¬inSegment = true := fun h_true => h_in.mp h_true h_segment
        rw [if_neg (by rw [h.count_pos]; exact not_not.mpr h_segment), if_neg h_false]
        rw [if_neg h_false] at h_fits
        subst h_segment
        by_cases h_last : rest.length = 1
        · rw [if_pos h_last, if_pos h_last]
        · rw [if_neg h_last, if_neg h_last]
          rw [if_neg h_last] at h_fits
          have h_at : AtSegment T st.pushReverse [] before := ⟨h.capacity, h.items, h.pending⟩
          exact @Fifo.room_and_iff _ st.navigationTasks st.pushReverse.navigationTasks
            [.reverse] _ _ rfl
            (ih h_at (by simp) (by simp) h_fits)
      · -- the segment ends here, at a merge unless the route does
        obtain rfl := h_before h_segment
        rw [List.length_nil, Nat.zero_add, if_pos (h_in.mpr h_segment)] at h_fits
        rw [if_pos (h.count_pos.mpr h_segment), if_pos (h_in.mpr h_segment)]
        by_cases h_last : rest.length = 1
        · -- the route ends with this reversal, and no merge is looked for
          rw [if_pos h_last, if_pos h_last]
          rw [if_pos h_last] at h_fits
          exact and_iff_right (h.room h_fits)
        · rw [if_neg h_last, if_neg h_last]
          rw [if_neg h_last] at h_fits
          obtain ⟨row, h_row, h_le, h_fits⟩ := h_fits
          refine pushesFit_merge h h_segment h_row ?_ fun st₁ h_at h_count₁ =>
            ih h_at (by simp) (by simp) ?_ h_count₁
          · rw [List.length_append, List.length_append, List.length_singleton]
            exact h_le
          · simpa [flip] using h_fits
    · -- the node goes into the segment, and the segment grows up to its end
      rw [if_neg h_turn] at h_fits ⊢
      rw [if_neg h_turn]
      refine pushesFit_node h n ?_ fun st₁ h_at h_tasks => ?_
      · by_cases h_rest : rest = []
        · rwa [if_pos h_rest] at h_fits
        · obtain ⟨m, rest, rfl⟩ := List.exists_cons_of_ne_nil h_rest
          rw [if_neg h_rest] at h_fits
          have h_next := h_fits.le
          omega
      · rw [← h_tasks] at h_count ⊢
        by_cases h_rest : rest = []
        · rw [if_pos h_rest, if_pos h_rest]
        · rw [if_neg h_rest] at h_fits
          rw [if_neg h_rest, if_neg h_rest]
          refine ih h_at (by simp) (by simp) ?_ h_count
          rw [List.length_nil, Nat.zero_add, List.length_append, List.length_append]
          exact h_fits

/-- How many tasks the loop queues. `taskCount` has the cases of the loop, without what is in the
tasks. -/
theorem segmentsLoop_count {nodes : List NodeNum} (h_cap : st.segment.capacity = some trackMax)
    (h_in : inSegment = true ↔ st.segment.items ≠ [])
    (h : segmentsLoop T train destOffset pad nodes st = .ok st') :
    ∃ new, st'.navigationTasks = st.navigationTasks.pushAll new ∧
      new.length = taskCount T pad inSegment nodes := by
  have h_push : ∀ (st : SegmentState) (n : NodeNum), st.segment.capacity = some trackMax →
      (st.push n).segment.items ≠ [] ∧ (st.push n).segment.capacity = some trackMax := by
    intro st n h_cap
    exact ⟨Fifo.items_push_ne_nil h_cap (by decide) n, (Fifo.capacity_push _ _).trans h_cap⟩
  have h_run := loopRun_of_ok h
  clear h
  -- the cases are those of `taskCount`: what a turn and the last node queue
  induction h_run generalizing inSegment with
  | nil => exact ⟨[], rfl, rfl⟩
  -- the route ends with a reversal: its task and the reversal, and no more
  | @endTurn n rest st st₁ h_turn h_last h_segment h_add =>
    obtain ⟨task, -, rfl⟩ := addNavigationTask_cut (h_push st n h_cap).1 h_add
    refine ⟨[.straight task, .reverse], rfl, ?_⟩
    rw [taskCount, if_pos h_turn, if_pos (h_in.mpr h_segment), if_pos h_last]
    rfl
  | @endReverse n rest st h_turn h_last h_segment =>
    refine ⟨[.reverse], rfl, ?_⟩
    rw [taskCount, if_pos h_turn, if_neg fun h_true => h_in.mp h_true h_segment, if_pos h_last]
    rfl
  -- a task and the reversal, and what the rest of the route leads to
  | @turn n rest st st₁ st' h_turn h_more h_segment h_end h ih =>
    obtain ⟨h_ne, h_cap_push⟩ := h_push st n h_cap
    obtain ⟨task, -, h_tasks, h_cap₁, h_nil⟩ := endAtMerge_cut h_ne h_end
    have h_none : false = true ↔ st₁.pushReverse.segment.items ≠ [] :=
      iff_of_false Bool.false_ne_true (not_not.mpr h_nil)
    obtain ⟨new, h_new, h_length⟩ := ih (h_cap₁.trans h_cap_push) h_none
    refine ⟨.straight task :: .reverse :: new, pushAll_turn h_tasks h_new, ?_⟩
    rw [taskCount, if_pos h_turn, if_pos (h_in.mpr h_segment), if_neg h_more, List.length_cons,
      List.length_cons, h_length]
    omega
  | @reverse n rest st st' h_turn h_more h_segment h ih =>
    have h_none : false = true ↔ st.pushReverse.segment.items ≠ [] :=
      iff_of_false Bool.false_ne_true (not_not.mpr h_segment)
    obtain ⟨new, h_new, h_length⟩ := ih h_cap h_none
    refine ⟨.reverse :: new, h_new, ?_⟩
    rw [taskCount, if_pos h_turn, if_neg fun h_true => h_in.mp h_true h_segment, if_neg h_more,
      List.length_cons, h_length, Nat.add_comm]
  -- the last node closes the last segment
  | @last n st st₁ st₂ h_go h_augment h_add =>
    obtain ⟨h_tasks, h_cap₁⟩ := augment_cut h_augment
    obtain ⟨task, -, rfl⟩ := addNavigationTask_cut (h_push st₁ n (h_cap₁.trans h_cap)).1 h_add
    refine ⟨[.straight task], ?_, ?_⟩
    · change st₁.navigationTasks.push _ = _
      rw [h_tasks]
      rfl
    · rw [taskCount, if_neg h_go, if_pos rfl]
      rfl
  -- nothing is queued yet
  | @go n rest st st₁ st' h_go h_more h_augment h ih =>
    obtain ⟨h_tasks, h_cap₁⟩ := augment_cut h_augment
    obtain ⟨h_ne, h_cap_push⟩ := h_push st₁ n (h_cap₁.trans h_cap)
    obtain ⟨new, h_new, h_length⟩ := ih h_cap_push (iff_of_true rfl h_ne)
    refine ⟨new, ?_, ?_⟩
    · rw [h_new]
      change st₁.navigationTasks.pushAll new = _
      rw [h_tasks]
    · rw [taskCount, if_neg h_go, if_neg h_more]
      exact h_length

/-- Each queue gets the tasks of the route, as many as `taskCount`. A queue without a bound shows
which these are, and any other is pushed the same ones. -/
theorem exists_tasks {path : RoutePath} {ps : List (List NodeNum)}
    (h_ps : straightPaths T path.padding.head? [] [] path.nodes = some ps)
    (h_fits : ∀ p ∈ ps, p.length ≤ maxTaskPath) (q : Fifo NavigationTask) : ∃ new,
      segmentsFillNavigationTasks T path (.empty none) train destOffset = .ok ⟨new, none⟩ ∧
        segmentsFillNavigationTasks T path q train destOffset = .ok (q.pushAll new) ∧
        new.length = taskCount T path.padding.head? false path.nodes := by
  have h_agree := @segmentsFillNavigationTasks_beside T (.empty none) q path train destOffset
  obtain ⟨new, h_run, -⟩ := (segmentsFillNavigationTasks_spec path q train destOffset h_ps).1 h_fits
  obtain ⟨new₀, h_run₀, -⟩ :=
    (segmentsFillNavigationTasks_spec path (.empty none) train destOffset h_ps).1 h_fits
  -- beside each other, the two queues get the same tasks
  rw [h_run, h_run₀] at h_agree
  obtain ⟨new₁, h_new₀, h_new⟩ := h_agree
  rw [h_new₀] at h_run₀
  rw [h_new] at h_run
  -- a queue without a bound shows which tasks these are
  have h_items : ∀ ts : List NavigationTask, (Fifo.empty none).pushAll ts = ⟨ts, none⟩ := by
    intro ts
    have h_all := Fifo.items_pushAll_of_unbounded (q := Fifo.empty none) rfl ts
    have h_none := Fifo.capacity_pushAll (Fifo.empty none) ts
    exact Fifo.ext h_all h_none
  -- their number is counted in the run on the queue without a bound
  obtain ⟨st, h_loop, h_ok⟩ := of_bind_ok h_run₀
  obtain ⟨new₂, h_new₂, h_length⟩ :=
    @segmentsLoop_count T train destOffset path.padding.head? (startState (.empty none))
    st false path.nodes rfl (by simp [startState, Fifo.empty]) h_loop
  have h_same := (Except.ok.inj h_ok).symm.trans h_new₂
  change (Fifo.empty none).pushAll new₁ = (Fifo.empty none).pushAll new₂ at h_same
  rw [h_items, h_items] at h_same
  obtain rfl := (Fifo.mk.inj h_same).1
  rw [h_items] at h_run₀
  exact ⟨new₁, h_run₀, h_run, h_length⟩

end

/-- **A route is not truncated** exactly if each segment fits into a task and the queue has room for
as many tasks as the route has segments and reversals.

What is not to be truncated is the list of tasks that comes onto an unbounded queue. `Fits` follows
the loop of `segments_fill_navigation_tasks`, and counts the buffer nodes on both sides of a
reversal; `taskCount` counts the tasks on the way. If a segment does not fit, the loop fails on the
unbounded queue too, so that the number of tasks is only asked for where there is one. -/
theorem notTruncated_iff {T : Track} {path : RoutePath} {tasks : Fifo NavigationTask}
    (h_cap : tasks.capacity = some maxNavigationTasks) (h_valid : tasks.count ≤ maxNavigationTasks)
    (train : TrainNum) (destOffset : Int32) :
    NotTruncated T path tasks train destOffset ↔
      Fits T path.padding.head? false 0 path.nodes ∧
        tasks.count + taskCount T path.padding.head? false path.nodes ≤ maxNavigationTasks := by
  have h_fits_iff : Fits T path.padding.head? false 0 path.nodes ↔
      ∃ ps, straightPaths T path.padding.head? [] [] path.nodes = some ps ∧ ∀ p ∈ ps,
        p.length ≤ maxTaskPath :=
    @fits_iff T path.padding.head? [] [] path.nodes false (by simp) (by simp)
  -- room for `k` tasks, as a number
  have h_room : ∀ k, tasks.Room k ↔ tasks.count + k ≤ maxNavigationTasks := by
    intro k
    rw [Fifo.Room, h_cap]
    exact ⟨fun h => h _ rfl, fun h c h_c => Option.some.inj h_c ▸ h⟩
  -- if the segments fit, only the queue can be short of room
  have h_pushes : Fits T path.padding.head? false 0 path.nodes →
      (PushesFit T train destOffset path.padding.head? path.nodes (startState tasks) ↔
        tasks.Room (taskCount T path.padding.head? false path.nodes)) := by
    intro h_fits
    exact pushesFit_iff (atSegment_start tasks) (by simp) (by simp) h_fits ((h_room 0).mpr h_valid)
  constructor
  · -- without a bound on the queue, only segments that do not fit make the loop fail
    rintro ⟨⟨new, h_new, -⟩, h_all⟩
    have h_fits : Fits T path.padding.head? false 0 path.nodes := by
      rw [h_fits_iff]
      cases h_ps : straightPaths T path.padding.head? [] [] path.nodes with
      | none =>
        obtain ⟨fault, h_error⟩ :=
          segmentsFillNavigationTasks_fails path (.empty none) train destOffset h_ps
        cases h_error.symm.trans h_new
      | some ps =>
        refine ⟨ps, rfl, ?_⟩
        by_contra h_long
        push Not at h_long
        cases ((segmentsFillNavigationTasks_spec path _ train destOffset h_ps).2 h_long).symm.trans
          h_new
    exact ⟨h_fits, (h_room _).mp ((h_pushes h_fits).mp h_all)⟩
  · rintro ⟨h_fits, h_count⟩
    obtain ⟨ps, h_ps, h_le⟩ := h_fits_iff.mp h_fits
    -- there is room for all tasks that come onto an empty queue of any length
    obtain ⟨new, h_empty, h_run, h_length⟩ :=
      @exists_tasks T train destOffset path ps h_ps h_le tasks
    have h_new : tasks.Room new.length := (h_room _).mpr (h_length.symm ▸ h_count)
    refine ⟨⟨new, h_empty, ?_⟩, (h_pushes h_fits).mpr ((h_room _).mpr h_count)⟩
    rw [h_run]
    exact congrArg Except.ok
      (Fifo.ext (Fifo.items_pushAll_of_room h_new) (Fifo.capacity_pushAll tasks new))

/-- Along the ring and back: two segments with a reversal between them, behind a task that is queued
already. -/
theorem notTruncated_there_and_back : ∃ h_once : ([4, 6, 8, 9, 7, 5, 3] : List NodeNum).Nodup,
    NotTruncated ringTrack (.found [4, 6, 8, 9, 7, 5, 3] h_once)
      ((Fifo.empty (some maxNavigationTasks)).push .reverse) 0 0 := by
  have h_once : ([4, 6, 8, 9, 7, 5, 3] : List NodeNum).Nodup := by decide
  have h_paths : straightPaths ringTrack (some 0) [] [] [4, 6, 8, 9, 7, 5, 3] =
      some [[4, 6, 8], [9, 7, 5, 3]] := by decide
  have h_fits : Fits ringTrack (some 0) false 0 [4, 6, 8, 9, 7, 5, 3] :=
    (@fits_iff ringTrack (some 0) [] [] _ false (by simp) (by simp)).mpr ⟨_, h_paths, by decide⟩
  refine ⟨h_once, (notTruncated_iff rfl (by decide) 0 0).mpr ⟨h_fits, ?_⟩⟩
  -- one task is there, and the route comes to three
  change 1 + taskCount ringTrack (some 0) false [4, 6, 8, 9, 7, 5, 3] ≤ maxNavigationTasks
  decide

/-- The first `k` nodes that a train comes to on the ring. -/
def ringRoute (k : ℕ) : List NodeNum := (List.range k).map fun i => Fin.ofNat trackMax (2 * i)

/-- **A route that is truncated**: its only segment is one node longer than the array of a task. It
goes around the ring in one direction, so nothing in it turns around, and it is one segment. -/
theorem not_notTruncated_long : ringTrack.raw.WellFormed ∧
      Finds ringTrack.raw 0 56 (fun _ => false) (ringRoute 29) ∧
    ¬∃ h_once : (ringRoute 29).Nodup,
      NotTruncated ringTrack (.found (ringRoute 29) h_once)
        (.empty (some maxNavigationTasks)) 0 0 := by
  refine ⟨Search.ringTrack_wellFormed, by decide +kernel, ?_⟩
  rintro ⟨h_once, h_all⟩
  have h_fits := ((notTruncated_iff rfl (Nat.zero_le _) 0 0).mp h_all).1
  -- the segments would fit, and the whole route is one of them
  obtain ⟨ps, h_ps, h_le⟩ :=
    (@fits_iff ringTrack (some 0) [] [] (ringRoute 29) false (by simp) (by simp)).mp h_fits
  have h_paths : straightPaths ringTrack (some 0) [] [] (ringRoute 29) = some [ringRoute 29] := by
    decide +kernel
  obtain rfl := Option.some.inj (h_paths.symm.trans h_ps)
  exact absurd (h_le _ (List.mem_singleton_self _)) (by decide)

end Nav
end PollingExpress
