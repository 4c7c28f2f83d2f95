import PollingExpress.Nav.NextTask

/-!
# The length of a straight path

A straightpath worker stops the kernel if it is handed a path whose length is not
positive. The length is put together from the edges of the path, the offset of the
destination and the offset at which the train stands, in 32 bits, and nothing looks at the
sum: `positive_distance` holds as long as every straight part of a route comes out longer
than what is taken off it (`LongEnough`).

Nothing in the proof is about being positive, so it is for any property `P` of the lengths.
The queue of a train is `LongFrom P` the offset at which the train stands: a straight path
leaves the train at 0, a reversal at -100. This is kept by every step, and
`segmentsLoop_long` brings it about, from the straight parts of the route (`legs`).
-/

namespace PollingExpress

namespace Nav

/-! ### The straight parts of a route -/

/-- A straight part of a route. -/
structure Leg where
  /-- The train has been turned around before. -/
  turned : Bool
  /-- With the buffer nodes of the reversals at its ends. -/
  nodes : List NodeNum
  /-- What it gets of the offset of the destination. -/
  share : Int32

/-- The straight parts of the rest of a route. The part that has begun has the nodes `seg`,
or is to begin with the buffer nodes `pre`. -/
def legs (T : Track) (destOffset : Int32) (pad : Option NodeNum) :
    Bool → List NodeNum → List NodeNum → List NodeNum → List Leg
  | _, _, _, [] => []
  | turned, pre, seg, n :: rest =>
    if rest.head?.or pad = some (T.reverse n) then
      if seg = [] then
        if rest.length = 1 then [] else legs T destOffset pad true pre [] rest
      else if rest.length = 1 then [⟨turned, seg ++ [n], destOffset * -1⟩]
      else
        let row := (T.bufferRow n).getD []
        ⟨turned, seg ++ [n] ++ row, 0⟩ :: legs T destOffset pad true (flip T row) [] rest
    else if rest = [] then [⟨turned, seg ++ pre ++ [n], destOffset⟩]
    else legs T destOffset pad turned [] (seg ++ pre ++ [n]) rest

/-- Where the train stands before a straight part, if it stood at `start` before the route. -/
def Leg.start (start : Int32) (leg : Leg) : Int32 := if leg.turned then -100 else start

/-- The length that a straight part is handed out with. -/
def Leg.dist (T : Track) (start : Int32) (leg : Leg) : Int32 :=
  Int32.ofInt (T.getPathDist leg.nodes) + leg.share - leg.start start

/-- The length of each STRAIGHT task, without the offset at which the train stands before it,
is as `P` says. -/
def LongFrom (P : Int32 → Prop) : Int32 → List NavigationTask → Prop
  | _, [] => True
  | start, .straight task :: ts => P (task.pathDist - start) ∧ LongFrom P 0 ts
  | _, .reverse :: ts => LongFrom P (-100) ts

/-- The task for a straight part is handed out with the length of the part. -/
theorem Leg.dist_eq {T : Track} (start : Int32) (leg : Leg) {task : StraightpathTask}
    (h : task.pathDist = Int32.ofInt (T.getPathDist leg.nodes) + leg.share) :
    task.pathDist - leg.start start = leg.dist T start := by
  rw [h, Leg.dist]

theorem LongFrom.take {P : Int32 → Prop} {start : Int32} {ts : List NavigationTask}
    (h : LongFrom P start ts) (k : ℕ) : LongFrom P start (ts.take k) := by
  induction ts generalizing start k with
  | nil =>
    rw [List.take_nil]
    trivial
  | cons a ts ih =>
    cases k with
    | zero => trivial
    | succ k =>
      cases a with
      | reverse => exact @ih (-100) h k
      | straight task => exact ⟨h.1, ih h.2 k⟩

section Loop

variable {T : Track} {pad : Option NodeNum} {train : TrainNum} {destOffset : Int32}
  {st st' : SegmentState}

/-- The task for a segment, which has not been cut short. -/
theorem addNavigationTask_exact {offset : Int32} {l : List NodeNum}
    (h_items : st.segment.items = l.take trackMax)
    (h : addNavigationTask T train offset st = .ok st') :
    ∃ task, task.pathDist = Int32.ofInt (T.getPathDist l) + offset ∧ st' = { st with
        navigationTasks := st.navigationTasks.push (.straight task)
        hadFirstTask := true } := by
  unfold addNavigationTask at h
  split at h
  · next h_fits =>
    -- what fits into a task has not been cut short by the segment
    have h_all : l.take trackMax = l := by
      rw [h_items, List.length_take] at h_fits
      have h_max : maxTaskPath < trackMax := by decide
      exact List.take_of_length_le (by omega)
    refine ⟨_, ?_, (Except.ok.inj h).symm⟩
    change Int32.ofInt (T.getPathDist st.segment.items) + offset = _
    rw [h_items, h_all]
  · cases h

/-- What the loop has in its segment: the nodes `seg`, or nothing, and is about to put in the buffer
nodes `pre`. Buffer nodes are put in behind a reversal only, with the first node of the segment. -/
structure InSegment (T : Track) (st : SegmentState) (pre seg : List NodeNum) : Prop where
  capacity : st.segment.capacity = some trackMax
  items : st.segment.items = seg.take trackMax
  straight : st.cameFromReverse = false → pre = []
  turned : st.cameFromReverse = true → seg = [] ∧
    ∃ row, st.mergeNodeNum.bind T.bufferRow = some row ∧ pre = flip T row

theorem InSegment.ne_nil_iff {pre seg : List NodeNum} (h : InSegment T st pre seg) :
    st.segment.items ≠ [] ↔ seg ≠ [] := by
  have h_pos : 0 < trackMax := by decide
  rw [h.items, ← List.length_pos_iff, ← List.length_pos_iff, List.length_take]
  omega

/-- The buffer nodes come first. -/
theorem InSegment.came_of_ne {pre seg : List NodeNum} (h : InSegment T st pre seg)
    (h_seg : seg ≠ []) :
    st.cameFromReverse = false := by
  by_contra h_came
  exact h_seg (h.turned (by simpa using h_came)).1

theorem InSegment.push {pre seg : List NodeNum} (h : InSegment T st pre seg)
    (h_came : st.cameFromReverse = false) (n : NodeNum) :
    InSegment T (st.push n) [] (seg ++ [n]) where
  capacity := (Fifo.capacity_push _ _).trans h.capacity
  items := Fifo.items_push_take h.capacity h.items n
  straight _ := rfl
  turned h_true := by
    rw [show (st.push n).cameFromReverse = st.cameFromReverse from rfl, h_came] at h_true
    cases h_true

/-- The buffer nodes that are still to come are put in front of the next node, if the train has just
turned around; if not, there are none. -/
theorem InSegment.augment {pre seg : List NodeNum} (h : InSegment T st pre seg)
    (h_augment : augment T st = .ok st') : InSegment T st' [] (seg ++ pre) ∧
      st'.cameFromReverse = false ∧ st'.navigationTasks = st.navigationTasks := by
  unfold Nav.augment at h_augment
  split at h_augment
  · next h_came =>
    -- the train has just turned around: the segment begins with the buffer nodes, flipped
    obtain ⟨h_nil, row, h_row, rfl⟩ := h.turned h_came
    simp only [addBufferNodes, h_row, Bool.false_eq_true, if_false] at h_augment
    obtain rfl := Except.ok.inj h_augment
    refine ⟨⟨?_, ?_, fun _ => rfl, fun h_true => by cases h_true⟩, rfl, rfl⟩
    · exact (Fifo.capacity_pushAll _ _).trans h.capacity
    · exact Fifo.items_pushAll_take h.capacity h.items _
  · next h_came =>
    obtain rfl := Except.ok.inj h_augment
    -- there is nothing to begin with
    have h_came : st.cameFromReverse = false := by simpa using h_came
    obtain rfl := h.straight h_came
    refine ⟨?_, h_came, rfl⟩
    rw [List.append_nil]
    exact h

/-- A segment that ends at a merge: its task has the buffer nodes of the merge at its end and no
share of the offset, and the next segment begins with them, flipped. -/
theorem endAtMerge_exact {seg : List NodeNum} {n : NodeNum} (h : InSegment T st [] seg)
    (h_end : endAtMerge T train n st = .ok st') : ∃ row task, T.bufferRow n = some row ∧
      task.pathDist = Int32.ofInt (T.getPathDist (seg ++ row)) + 0 ∧
      st'.navigationTasks = st.navigationTasks.push (.straight task) ∧
      InSegment T st' (flip T row) [] := by
  obtain ⟨segment, h_buffer, h_end⟩ := of_bind_ok h_end
  obtain ⟨st₁, h_add, h_end⟩ := of_bind_ok h_end
  obtain rfl := Except.ok.inj h_end
  -- without a row there is no task, and the call fails
  cases h_row : T.bufferRow n with
  | none => simp [addBufferNodes, h_row] at h_buffer
  | some row =>
    simp only [addBufferNodes, Option.bind_some, h_row, if_true] at h_buffer
    obtain rfl := Except.ok.inj h_buffer
    obtain ⟨task, h_dist, rfl⟩ :=
      addNavigationTask_exact (Fifo.items_pushAll_take h.capacity h.items row) h_add
    refine ⟨row, task, rfl, h_dist, rfl, ⟨?_, rfl, fun h_false => ?_, fun _ => ?_⟩⟩
    · exact (Fifo.capacity_pushAll _ _).trans h.capacity
    · cases h_false
    · exact ⟨rfl, row, h_row, rfl⟩

/-- **Long enough.** If the lengths of the straight parts of the rest of a route are as `P` says,
those of the tasks for them are. The induction is on the branches of the loop (`LoopRun`): where a
segment ends its task is queued, with the length of the part that ends there, and a reversal changes
the start of the next one to -100. -/
theorem segmentsLoop_long {P : Int32 → Prop} {nodes pre seg : List NodeNum} {turned : Bool}
    {start : Int32} (h_in : InSegment T st pre seg)
    (h_long : ∀ leg ∈ legs T destOffset pad turned pre seg nodes, P (leg.dist T start))
    (h : segmentsLoop T train destOffset pad nodes st = .ok st') :
    ∃ new, st'.navigationTasks = st.navigationTasks.pushAll new ∧
      LongFrom P (if turned then -100 else start) new := by
  have h_run := loopRun_of_ok h
  clear h
  -- along the run of the loop; `legs` has the same cases
  induction h_run generalizing pre seg turned with
  | nil => exact ⟨[], rfl, trivial⟩
  | @endTurn n rest st st₁ h_turn h_last h_segment h_add =>
    have h_seg := h_in.ne_nil_iff.mp h_segment
    have h_push := h_in.push (h_in.came_of_ne h_seg) n
    rw [legs, if_pos h_turn, if_neg h_seg, if_pos h_last] at h_long
    obtain ⟨task, h_dist, rfl⟩ := addNavigationTask_exact h_push.items h_add
    refine ⟨[.straight task, .reverse], rfl, ?_, trivial⟩
    have h_leg := h_long _ (List.mem_singleton_self _)
    rwa [← Leg.dist_eq start ⟨turned, seg ++ [n], destOffset * -1⟩ h_dist] at h_leg
  | endReverse => exact ⟨[.reverse], rfl, trivial⟩
  -- the segment ends behind the merge, and the next one begins there
  | @turn n rest st st₁ st' h_turn h_more h_segment h_end h ih =>
    have h_seg := h_in.ne_nil_iff.mp h_segment
    have h_push := h_in.push (h_in.came_of_ne h_seg) n
    obtain ⟨row, task, h_row, h_dist, h_tasks, h_in₁⟩ := endAtMerge_exact h_push h_end
    rw [legs, if_pos h_turn, if_neg h_seg, if_neg h_more, h_row, Option.getD_some] at h_long
    have h_in₂ : InSegment T st₁.pushReverse (flip T row) [] :=
      ⟨h_in₁.capacity, h_in₁.items, h_in₁.straight, h_in₁.turned⟩
    obtain ⟨new, h_new, h_ts⟩ := ih h_in₂ fun leg h_leg => h_long leg (List.mem_cons_of_mem _ h_leg)
    refine ⟨.straight task :: .reverse :: new, pushAll_turn h_tasks h_new, ?_, h_ts⟩
    have h_leg := h_long _ List.mem_cons_self
    rwa [← Leg.dist_eq start ⟨turned, seg ++ [n] ++ row, 0⟩ h_dist] at h_leg
  -- a reversal on the spot
  | @reverse n rest st st' h_turn h_more h_segment h ih =>
    obtain rfl : seg = [] := not_not.mp fun h_seg => h_in.ne_nil_iff.mpr h_seg h_segment
    rw [legs, if_pos h_turn, if_pos rfl, if_neg h_more] at h_long
    have h_in' : InSegment T st.pushReverse pre [] :=
      ⟨h_in.capacity, h_in.items, h_in.straight, h_in.turned⟩
    obtain ⟨new, h_new, h_ts⟩ := ih h_in' h_long
    exact ⟨.reverse :: new, h_new, h_ts⟩
  -- the offset of the destination goes into the last segment
  | @last n st st₁ st₂ h_go h_augment h_add =>
    obtain ⟨h_in₁, h_came, h_tasks⟩ := h_in.augment h_augment
    rw [legs, if_neg h_go, if_pos rfl] at h_long
    obtain ⟨task, h_dist, rfl⟩ := addNavigationTask_exact (h_in₁.push h_came n).items h_add
    refine ⟨[.straight task], ?_, ?_, trivial⟩
    · change st₁.navigationTasks.push _ = _
      rw [h_tasks]
      rfl
    · have h_leg := h_long _ (List.mem_singleton_self _)
      rwa [← Leg.dist_eq start ⟨turned, seg ++ pre ++ [n], destOffset⟩ h_dist] at h_leg
  -- the segment only grows
  | @go n rest st st₁ st' h_go h_more h_augment h ih =>
    obtain ⟨h_in₁, h_came, h_tasks⟩ := h_in.augment h_augment
    rw [legs, if_neg h_go, if_neg h_more] at h_long
    obtain ⟨new, h_new, h_ts⟩ := ih (h_in₁.push h_came n) h_long
    refine ⟨new, ?_, h_ts⟩
    rw [h_new]
    change st₁.navigationTasks.pushAll new = _
    rw [h_tasks]

end Loop

/-! ### The queue of a train -/

/-- The lengths of the straight parts of a route that is reported are as `P` says, and so is
that of a straight path at the front of the queue when a train is registered. -/
def LegsMeet (P : Int32 → Prop) (T : Track) (w : NavWorld) (m : NavMessage) : Prop :=
  match m.req with
  | .pathfindWorkerDone t _ path =>
    ∀ leg ∈ legs T (w.server.trainStates t).destOffset path.padding.head? false [] [] path.nodes,
      P (leg.dist T (w.server.trainStates t).regedAtOffset)
  | .registerLocation t n =>
    match (w.server.navigationTasks t).items with
    | .straight task :: _ => P (task.pathDist - if (T.node n).type = .enter then 250 else 0)
    | _ => True
  | _ => True

/-- The lengths come out positive: those of the straight parts of the route that is reported, with
the offsets, in 32 bits, and that of the next path when a train is registered again. -/
def LongEnough (T : Track) : NavWorld → NavMessage → Prop := LegsMeet (0 < ·) T

instance (P : Int32 → Prop) [DecidablePred P] (T : Track) (w : NavWorld) (m : NavMessage) :
    Decidable (LegsMeet P T w m) := by
  unfold LegsMeet
  generalize m.req = req
  rcases req with _ | _
  case registerLocation t n =>
    dsimp only
    generalize (w.server.navigationTasks t).items = tasks
    rcases tasks with _ | ⟨_ | _, _⟩ <;> infer_instance
  all_goals infer_instance

instance (T : Track) (w : NavWorld) (m : NavMessage) : Decidable (LongEnough T w m) :=
  inferInstanceAs (Decidable (LegsMeet _ T w m))

/-- The lengths that are handed out are as `P` says. -/
def HandsOut (P : Int32 → Prop) (es : List NavEvent) : Prop :=
  ∀ client path dist delay, .reply client (.straightpathHeresWork path dist delay) ∈ es → P dist

section

variable {P : Int32 → Prop} {T : Track} {t : TrainNum} {client : NavTask} {d d' : Desk}
  {p q : NavTaskState} {f f' : Table} {req : NavRequest} {es es' : List NavEvent}

theorem HandsOut.append (h : HandsOut P es) (h' : HandsOut P es') : HandsOut P (es ++ es') := by
  intro client path dist delay h_mem
  obtain h_mem | h_mem := List.mem_append.mp h_mem
  · exact h _ _ _ _ h_mem
  · exact h' _ _ _ _ h_mem

theorem HandsOut.cons {e : NavEvent} (h_e : ∀ client path dist delay,
    e = .reply client (.straightpathHeresWork path dist delay) → P dist) (h : HandsOut P es) :
    HandsOut P (e :: es) := by
  intro client path dist delay h_mem
  obtain rfl | h_mem := List.mem_cons.mp h_mem
  · exact h_e _ _ _ _ rfl
  · exact h _ _ _ _ h_mem

theorem handsOut_nil : HandsOut P [] := fun _ _ _ _ h_mem => by cases h_mem

theorem handsOut_answers : HandsOut P d.answers := by
  unfold Desk.answers
  split
  · exact .cons (fun _ _ _ _ h => by cases h) handsOut_nil
  · exact handsOut_nil

theorem handsOut_finishAnswers : HandsOut P d.finishAnswers := by
  unfold Desk.finishAnswers
  split
  · exact .cons (fun _ _ _ _ h => by cases h) handsOut_nil
  · exact handsOut_nil

/-- The straight path that is come to is longer than the offset before it, and leaves the
rest of the queue long enough. -/
theorem Approach.long {d₁ : Desk} {task : StraightpathTask} (h : Approach T t d d₁ es task)
    (h_queue : QueueOk t d.tasks.items)
    (h_long : LongFrom P d.trainState.regedAtOffset d.tasks.items) :
    task.train = t ∧ P (task.pathDist - d₁.trainState.regedAtOffset) ∧ LongFrom P 0 d₁.tasks.items ∧
      HandsOut P es := by
  cases h with
  | @straight task tasks h_pop =>
    rw [Fifo.items_of_pop h_pop] at h_queue h_long
    exact ⟨(h_queue.straight task List.mem_cons_self).1, h_long.1, h_long.2, handsOut_nil⟩
  | @turned n task tasks tasks' h_pop h_n h_next =>
    rw [Fifo.items_of_pop h_pop, Fifo.items_of_pop h_next] at h_queue h_long
    -- no two reversals follow each other
    cases task with
    | reverse => exact absurd ⟨rfl, rfl⟩ (List.isChain_cons_cons.mp h_queue.alternates).1
    | straight task =>
      refine ⟨(h_queue.straight task (by simp)).1, h_long.1, h_long.2, ?_⟩
      exact .cons (fun _ _ _ _ h => by cases h) handsOut_nil

theorem NextTask.long (h : NextTask T t d f es d' f') (h_queue : QueueOk t d.tasks.items)
    (h_long : LongFrom P d.trainState.regedAtOffset d.tasks.items) :
    LongFrom P d'.trainState.regedAtOffset d'.tasks.items ∧ HandsOut P es := by
  -- the path is driven, or it is blocked and the queue emptied, or only a reversal is left
  cases h with
  | @drive d₁ es task last offset h_app h_can h_last h_offset =>
    obtain ⟨h_train, h_dist, h_rest, h_es⟩ := h_app.long h_queue h_long
    refine ⟨h_rest, h_es.append (.cons ?_ handsOut_nil)⟩
    rintro client path dist delay h_eq
    cases h_eq
    rw [h_offset h_train]
    exact h_dist
  | blocked h_app => exact ⟨trivial, (h_app.long h_queue h_long).2.2.2⟩
  | arrive h_pop h_n h_next =>
    refine ⟨?_, .cons (fun _ _ _ _ h => by cases h) handsOut_finishAnswers⟩
    rw [Desk.finished_tasks, Fifo.items_of_pop_none h_next]
    trivial

/-- What a message of the train does to the lengths. A report fills the queue, a registration moves
the start of what is queued, and a task that is handed out is taken off with the length that it has
been found to have. -/
theorem DeskStep.long {phase : NavPhase} (h : DeskStep T t client d f req es d' f')
    (h_cell : Cell t d p q) (h_calls : Calls T client phase req)
    (h_p : client = .pathfindWorker t → p.waiting = none ∧ p.phase = phase)
    (h_queue : QueueOk t d.tasks.items)
    (h_route : ∀ result path, req = .pathfindWorkerDone t result path →
      ∀ leg ∈ legs T d.trainState.destOffset path.padding.head? false [] [] path.nodes,
        P (leg.dist T d.trainState.regedAtOffset))
    (h_register : ∀ n, req = .registerLocation t n → ∀ task ts,
      d.tasks.items = .straight task :: ts →
      P (task.pathDist - if (T.node n).type = .enter then 250 else 0))
    (h_long : LongFrom P d.trainState.regedAtOffset d.tasks.items) :
    LongFrom P d'.trainState.regedAtOffset d'.tasks.items ∧ HandsOut P es := by
  -- an answer with no work in it hands out none
  have h_one : ∀ {client : Option NavTask} {res : NavResponse},
      (∀ path dist delay, res ≠ .straightpathHeresWork path dist delay) →
        HandsOut P [.reply client res] := by
    intro client res h_res
    refine .cons (fun _ path dist delay h_eq => ?_) handsOut_nil
    obtain ⟨-, rfl⟩ := NavEvent.reply.inj h_eq
    exact absurd rfl (h_res path dist delay)
  -- the queue is empty when a route comes
  have h_filled : ∀ {result path tasks}, req = .pathfindWorkerDone t result path →
      segmentsFillNavigationTasks T path d.tasks t d.trainState.destOffset = .ok tasks →
      LongFrom P d.trainState.regedAtOffset tasks.items ∧ QueueOk t tasks.items := by
    rintro result path tasks rfl h_tasks
    obtain ⟨rfl, source, destination, rfl, h_reported⟩ := h_calls.pathfindWorkerDone
    have h_state := (h_cell.searching _ _ (h_p rfl).2).1
    have h_empty := h_cell.queue_empty (by simp [h_state])
    refine ⟨?_, (queue_of_fill h_reported h_cell.capacity h_empty h_tasks).1⟩
    obtain ⟨st', h_loop, h_tasks⟩ := of_bind_ok h_tasks
    obtain rfl := Except.ok.inj h_tasks
    have h_in : InSegment T ⟨.empty (some trackMax), false, none, false, d.tasks⟩ [] [] :=
      ⟨rfl, rfl, fun _ => rfl, fun h_true => by cases h_true⟩
    obtain ⟨new, h_new, h_ts⟩ := segmentsLoop_long h_in (h_route result path rfl) h_loop
    rw [h_new, Fifo.items_pushAll_take h_cell.capacity (l := []) (by simpa using h_empty),
      List.nil_append]
    exact h_ts.take _
  cases h with
  | busy | needRegister | drove => exact ⟨h_long, h_one fun _ _ _ h => by cases h⟩
  | search | giveSearch => exact ⟨h_long, h_one fun _ _ _ h => by cases h⟩
  | searchLater | parkPathfinder | parkDriver => exact ⟨h_long, handsOut_nil⟩
  | noPath =>
    exact ⟨h_long, .cons (fun _ _ _ _ h => by cases h) (h_one fun _ _ _ h => by cases h)⟩
  | searchAgain => exact ⟨trivial, .cons (fun _ _ _ _ h => by cases h) handsOut_answers⟩
  | follow _ _ h_tasks =>
    refine ⟨?_, .cons (fun _ _ _ _ h => by cases h) handsOut_answers⟩
    rw [Desk.answered_trainState]
    exact (h_filled rfl h_tasks).1
  -- a route has come, and its first task is handed out at once
  | followNow _ _ h_tasks _ h_next =>
    obtain ⟨h_ts, h_ok⟩ := h_filled rfl h_tasks
    obtain ⟨h_rest, h_es⟩ := h_next.long h_ok (by rwa [Desk.answered_trainState])
    refine ⟨h_rest, ?_⟩
    exact .append (.cons (fun _ _ _ _ h => by cases h) handsOut_answers)
      (.cons (fun _ _ _ _ h => by cases h) h_es)
  | next _ _ h_next =>
    obtain ⟨h_rest, h_es⟩ := h_next.long h_queue h_long
    exact ⟨h_rest, .cons (fun _ _ _ _ h => by cases h) h_es⟩
  | arrived =>
    rw [Desk.finished_trainState, Desk.finished_tasks]
    exact ⟨h_long, handsOut_finishAnswers.append (h_one fun _ _ _ h => by cases h)⟩
  -- at an entry the first task gets shorter by 250
  | @register n =>
    refine ⟨?_, h_one fun _ _ _ h => by cases h⟩
    cases h_items : d.tasks.items with
    | nil => trivial
    | cons a ts =>
      rw [h_items] at h_long
      cases a with
      | reverse => exact h_long
      | straight task => exact ⟨h_register n rfl task ts h_items, h_long.2⟩

end

/-- The paths that the straightpath worker of `t` has been handed, with their lengths. -/
def handedWork (es : List NavEvent) (t : TrainNum) : List (List NodeNum × Int32) :=
  es.filterMap fun
    | .reply client (.straightpathHeresWork path dist _) =>
      if client = some (.straightpathWorker t) then some (path, dist) else none
    | _ => none

section

variable {t : TrainNum} {es es' : List NavEvent}

theorem handedWork_append : handedWork (es ++ es') t = handedWork es t ++ handedWork es' t :=
  List.filterMap_append

theorem mem_handedWork {work : List NodeNum × Int32} (h : work ∈ handedWork es t) :
    ∃ delay,
      .reply (some (.straightpathWorker t)) (.straightpathHeresWork work.1 work.2 delay) ∈ es := by
  obtain ⟨e, h_e, h_work⟩ := List.mem_filterMap.mp h
  split at h_work
  · next client path dist delay =>
    split at h_work
    · next h_client =>
      obtain rfl := Option.some.inj h_work
      exact ⟨delay, h_client ▸ h_e⟩
    · cases h_work
  · cases h_work

/-- The printers are handed no path. -/
theorem Printed.handedWork {s s' : NavServer} {a b : Bool} {fl : List NavEvent}
    (h : Printed s s' a b fl) (h_a : s.reservationClient ≠ some (.straightpathWorker t))
    (h_b : s.trainstatePrintClient ≠ some (.straightpathWorker t)) : handedWork fl t = [] := by
  refine List.eq_nil_iff_forall_not_mem.mpr fun work h_work => ?_
  obtain ⟨delay, h_mem⟩ := mem_handedWork h_work
  obtain ⟨res, res', rfl⟩ := h.answers
  obtain h_mem | h_mem := List.mem_append.mp h_mem
  · -- the printers are clients, and a path is handed to a worker
    cases a with
    | false => cases h_mem
    | true =>
      have h_eq := NavEvent.reply.inj (List.mem_singleton.mp h_mem)
      exact h_a h_eq.1.symm
  · cases b with
    | false => cases h_mem
    | true =>
      have h_eq := NavEvent.reply.inj (List.mem_singleton.mp h_mem)
      exact h_b h_eq.1.symm

end

/-- What is handed out has a length as `P` says, in every run whose routes and registrations
see to it. -/
theorem handedWork_of_reaches {P : Int32 → Prop} {T : Track} {ms : List NavMessage} {w : NavWorld}
    (h : (worldSystem T).Reaches (LegsMeet P T) ms w) (t : TrainNum) :
    ∀ work ∈ handedWork w.server.log t, P work.2 := by
  -- what is queued is as long as it should be from where the train is registered, and what was
  -- handed out is
  let Inv : NavWorld → Prop := fun w => Coupled T w ∧
    (∀ t, QueueOk t (w.server.desk t).tasks.items ∧
      LongFrom P (w.server.desk t).trainState.regedAtOffset (w.server.desk t).tasks.items) ∧
    ∀ t, ∀ work ∈ handedWork w.server.log t, P work.2
  have h_inv : Inv w := by
    refine h.invariant ?_ ?_
    · rintro w rfl
      exact ⟨coupled_start, fun t => ⟨.nil t, trivial⟩, fun t work h_work => by cases h_work⟩
    · rintro w m w' ⟨h_w, h_desks, h_handed⟩ h_ok h_step
      refine ⟨h_w.step h_step, ?_⟩
      -- what the printers are told does not count
      have h_worker : ∀ {s : NavServer} {own fl : List NavEvent} {t : TrainNum},
          s.log = w.server.log ++ (own ++ fl) → HandsOut P own → handedWork fl t = [] →
            ∀ work ∈ handedWork s.log t, P work.2 := by
        intro s own fl t h_log h_own h_fl work h_work
        rw [h_log, handedWork_append, handedWork_append, h_fl, List.append_nil] at h_work
        obtain h_work | h_work := List.mem_append.mp h_work
        · exact h_handed t work h_work
        · obtain ⟨delay, h_mem⟩ := mem_handedWork h_work
          exact h_own _ _ _ _ h_mem
      -- a message about a train keeps its queue, and hands out positive lengths only
      have h_own : ∀ {t es d' f'}, TrainStep T w w' m t es d' f' →
          (QueueOk t d'.tasks.items ∧ LongFrom P d'.trainState.regedAtOffset d'.tasks.items) ∧
            HandsOut P es := by
        intro t es d' f' h_train
        have h_p : m.client = .pathfindWorker t → (w.tasks (.pathfindWorker t)).waiting = none ∧
            (w.tasks (.pathfindWorker t)).phase = (w.tasks m.client).phase :=
          fun h_eq => ⟨h_eq ▸ h_step.1.1, h_eq ▸ rfl⟩
        obtain ⟨h_long, h_es⟩ := h_train.step.long (h_w.cells t) h_step.1.2 h_p (h_desks t).1
          (fun result path h_req => by
            rw [LegsMeet, h_req] at h_ok
            exact h_ok)
          (fun n h_req task ts h_items => by
            rw [LegsMeet, h_req] at h_ok
            dsimp only at h_ok
            rw [show (w.server.navigationTasks t).items = _ from h_items] at h_ok
            exact h_ok) (h_desks t).2
        exact ⟨⟨h_train.step.queue (h_w.cells t) h_step.1.2 h_p (h_desks t).1, h_long⟩, h_es⟩
      refine ⟨fun u => ?_, fun u => ?_⟩
      · -- the queue of `u`, which the message was about or was not
        obtain h_same | ⟨es, d', f', h_train, h_desk⟩ := desk_of_step h_w.symmetric h_step u
        · rw [h_same]
          exact h_desks u
        · rw [h_desk]
          exact (h_own h_train).1
      · -- what has been handed out: by a message about a train, or by none
        obtain ⟨h_send, ⟨t, es, d', f', h_train⟩ | ⟨h_shared, -⟩⟩ :=
          world_step_cases h_w.symmetric h_step
        · obtain ⟨a, b, fl, h_printed, h_log, -⟩ := h_train.printed
          refine h_worker h_log (h_own h_train).2
            (h_printed.handedWork (fun h_eq => ?_) fun h_eq => ?_)
          · exact not_isOther_straightpathWorker (h_w.reservation_other _ h_eq)
          · exact not_isOther_straightpathWorker (h_w.trainstate_other _ h_eq)
        · obtain ⟨own, s₁, a, b, fl, h_fl, -, h_log, h_own, h_res, h_tr⟩ := h_shared.effect
          obtain ⟨h_res_other, h_tr_other⟩ :=
            SharedStep.printers_other h_w (h_send.2.worker_shared h_shared) h_res h_tr
          have h_all : w'.server.log = w.server.log ++ (own ++ fl) :=
            h_fl.log.trans (by rw [h_log, List.append_assoc])
          refine h_worker h_all ?_ (h_fl.handedWork (fun h_eq => ?_) fun h_eq => ?_)
          · obtain ⟨rfl, -⟩ | ⟨rfl, -⟩ | ⟨t, -, rfl, -⟩ := h_own
            · exact handsOut_nil
            · exact .cons (fun _ _ _ _ h => by cases h) handsOut_nil
            · exact .cons (fun _ _ _ _ h => by cases h) handsOut_nil
          · exact not_isOther_straightpathWorker (h_res_other _ h_eq)
          · exact not_isOther_straightpathWorker (h_tr_other _ h_eq)
  exact h_inv.2.2 t

/-- **Positive lengths**, in every run whose routes and registrations leave every straight part with
a positive length, in 32 bits.

The condition is about the message: the report of a route, whose straight parts are measured with
the offset of the destination and the one of the train, or a registration while there is a queue.
The lengths in the queue are kept by every step (`LongFrom`), and what is handed out has come from
there. -/
theorem positive_distance {T : Track} {ms : List NavMessage} {w : NavWorld}
    (h : (worldSystem T).Reaches (LongEnough T) ms w) (t : TrainNum) :
    ∀ work ∈ handedWork w.server.log t, 0 < work.2 :=
  handedWork_of_reaches h t

theorem positive_distance_driving : ∃ w : NavWorld,
    handedWork w.server.log 0 = [([4, 6, 8], 2)] ∧ ∀ work ∈ handedWork w.server.log 0,
      0 < work.2 := by
  obtain ⟨w, h_reach, h_w⟩ := System.exists_reaches_of_play (@worldNext_step ringTrack)
    (LongEnough ringTrack) (fun w => handedWork w.server.log 0 = [([4, 6, 8], 2)])
    thereAndBack rfl (by decide +kernel)
  exact ⟨w, h_w, positive_distance h_reach 0⟩

/-- The train is sent to where it is. -/
theorem not_positive_distance : ¬∀ w, (worldSystem ringTrack).Reachable w → ∀ t,
    ∀ work ∈ handedWork w.server.log t, 0 < work.2 := by
  intro h_all
  obtain ⟨w, h_reach, h_work⟩ := System.exists_reaches_of_play (@worldNext_step ringTrack)
    (fun _ _ => True) (fun w => ([2], 0) ∈ handedWork w.server.log 0)
    [⟨.other 0, .registerLocation 0 2⟩, ⟨.pathfindWorker 0, .whoami .pathfind⟩,
      ⟨.pathfindWorker 0, .pathfindWorker 0⟩, ⟨.straightpathWorker 0, .whoami .straightpath⟩,
      ⟨.straightpathWorker 0, .straightpathWorker 0⟩, ⟨.other 0, .navigationRequest 0 2 0 false⟩,
      foundRoute [2] (by decide)] rfl (by decide +kernel)
  exact absurd (h_all w h_reach.reachable 0 _ h_work) (by decide)

end Nav
end PollingExpress
