import PollingExpress.Nav.Segmentation

/-!
# The straight paths of a route

Which paths `segments_fill_navigation_tasks` hands out for a route (`straightPaths`), whatever is in
the queue: the nodes between two reversals, with the buffer nodes of the merges around them.
`segmentsLoop_yields` says that the loop queues just these, if they fit into a task.

`bufferAsks` are the nodes that `add_buffer_nodes` is called with. They are nodes that the route
turns around at in its middle, and the last node where the entry behind it happens to be its reverse
node (`bufferAsks_cases`).
-/

namespace PollingExpress
namespace Nav

/-- The straight paths among some tasks. -/
def straights (ts : List NavigationTask) : List (List NodeNum) :=
  ts.filterMap fun
    | .straight task => some task.path
    | .reverse => none

/-- The straight paths for the rest of a route, with `segment` collected so far, or with the buffer
nodes `before` to come first; `none` if a row of `buffer_nodes` is read that there is not. -/
def straightPaths (T : Track) (pad : Option NodeNum) :
    List NodeNum → List NodeNum → List NodeNum → Option (List (List NodeNum))
  | _, _, [] => some []
  | segment, before, n :: rest =>
    if rest.head?.or pad = some (T.reverse n) then
      if segment ≠ [] then
        if rest.length = 1 then some [segment ++ [n]]
        else (T.bufferRow n).bind fun row =>
          (straightPaths T pad [] (flip T row) rest).map fun ps => (segment ++ [n] ++ row) :: ps
      else if rest.length = 1 then some []
      else straightPaths T pad [] before rest
    else if rest = [] then some [before ++ segment ++ [n]]
    else straightPaths T pad (before ++ segment ++ [n]) [] rest

/-- The nodes that `add_buffer_nodes` is called with for the rest of a route, in their order: for a
reversal that ends a segment, and again in front of the next one. -/
def bufferAsks (T : Track) (pad : Option NodeNum) : Bool → Option NodeNum → List NodeNum →
      List NodeNum
  | _, _, [] => []
  | inSegment, came, n :: rest =>
    if rest.head?.or pad = some (T.reverse n) then
      if inSegment then
        if rest.length = 1 then [] else n :: bufferAsks T pad false (some n) rest
      else if rest.length = 1 then []
      else bufferAsks T pad false came rest
    else came.toList ++ bufferAsks T pad true none rest

/-! ### What the loop queues -/

/-- The loop has `segment` in hand, or is about to put the buffer nodes `before` in. The array of
the segment has 140 places, so what it holds is the front of `segment`; a path that is longer than a
task is found when it is copied. -/
structure AtSegment (T : Track) (st : SegmentState) (segment before : List NodeNum) : Prop where
  capacity : st.segment.capacity = some trackMax
  items : st.segment.items = segment.take trackMax
  pending : st.cameFromReverse = false ∧ before = [] ∨ st.cameFromReverse = true ∧ segment = [] ∧
    ∃ n row, st.mergeNodeNum = some n ∧ T.bufferRow n = some row ∧ before = flip T row

/-- What the loop comes to from a state on, if `ps` are the straight paths that are left. -/
def Yields (r : Except Fault SegmentState) (st : SegmentState) : Option (List (List NodeNum)) → Prop
  | none => ∃ fault, r = .error fault
  | some ps =>
    ((∀ p ∈ ps, p.length ≤ maxTaskPath) → ∃ st' new, r = .ok st' ∧
      st'.navigationTasks = st.navigationTasks.pushAll new ∧ straights new = ps) ∧
    ((∃ p ∈ ps, maxTaskPath < p.length) → r = .error .pathOverrun)

section
variable {T : Track} {pad : Option NodeNum} {st st' : SegmentState}
  {segment before l : List NodeNum} {r : Except Fault SegmentState}

theorem AtSegment.count_pos (h : AtSegment T st segment before) : st.segment.count ≥ 1 ↔
      segment ≠ [] := by
  rw [Fifo.count, h.items, ge_iff_le, Nat.one_le_iff_ne_zero, ne_eq, List.length_eq_zero_iff,
    List.take_eq_nil_iff]
  simp [show trackMax ≠ 0 from by decide]

/-- A node goes into the segment. -/
theorem AtSegment.push (h : AtSegment T st segment before) (h_before : segment ≠ []) (n : NodeNum) :
    AtSegment T (st.push n) (segment ++ [n]) before := by
  refine ⟨(Fifo.capacity_push _ _).trans h.capacity, Fifo.items_push_take h.capacity h.items n, ?_⟩
  rcases h.pending with h_pending | ⟨-, h_nil, -⟩
  · exact .inl h_pending
  · exact absurd h_nil h_before

/-- A node goes into the segment, behind the buffer nodes that come first. -/
theorem AtSegment.augment_push (h : AtSegment T st segment before) (n : NodeNum) :
    ∃ st', augment T st = .ok st' ∧
    AtSegment T (st'.push n) (before ++ segment ++ [n]) [] ∧
      st'.navigationTasks = st.navigationTasks := by
  -- no reversal has come before, or the buffer nodes of its node are to be put in, flipped
  obtain ⟨h_came, rfl⟩ | ⟨h_came, rfl, m, row, h_merge, h_row, rfl⟩ := h.pending
  · refine ⟨st, by simp [augment, h_came], ⟨?_, ?_, .inl ⟨h_came, rfl⟩⟩, rfl⟩
    · exact (Fifo.capacity_push _ _).trans h.capacity
    · rw [List.nil_append]
      exact Fifo.items_push_take h.capacity h.items n
  · refine ⟨{ st with segment := st.segment.pushAll (flip T row), cameFromReverse := false }, ?_,
      ⟨?_, ?_, .inl ⟨rfl, rfl⟩⟩, rfl⟩
    · simp [augment, h_came, addBufferNodes, h_merge, h_row, flip, bind, Except.bind]
    · exact ((Fifo.capacity_push _ _).trans (Fifo.capacity_pushAll _ _)).trans h.capacity
    · rw [List.append_nil]
      refine Fifo.items_push_take ((Fifo.capacity_pushAll _ _).trans h.capacity) ?_ n
      exact Fifo.items_pushAll_take h.capacity h.items (flip T row)

/-- The loop goes on with the queue as it was. -/
theorem Yields.of_same {ps : Option (List (List NodeNum))} (h : Yields r st' ps)
    (h_tasks : st'.navigationTasks = st.navigationTasks) : Yields r st ps := by
  cases ps with
  | none => exact h
  | some ps =>
    rw [Yields, h_tasks] at h
    exact h

/-- The loop goes on after some tasks have been queued. -/
theorem Yields.of_pushed {ts : List NavigationTask} {paths : List (List NodeNum)}
    {ps : Option (List (List NodeNum))} (h : Yields r st' ps)
    (h_tasks : st'.navigationTasks = st.navigationTasks.pushAll ts) (h_paths : straights ts = paths)
    (h_fits : ∀ p ∈ paths, p.length ≤ maxTaskPath) :
    Yields r st (ps.map fun ps => paths ++ ps) := by
  cases ps with
  | none => exact h
  | some ps =>
    obtain ⟨h_ok, h_over⟩ := h
    -- either all paths fit, those queued and those to come, or one of those to come does not
    refine ⟨fun h_all => ?_, fun ⟨p, h_p, h_long⟩ => ?_⟩
    · obtain ⟨st₁, new, h_run, h_new, h_straights⟩ :=
        h_ok fun p h_p => h_all p (List.mem_append_right _ h_p)
      refine ⟨st₁, ts ++ new, h_run, ?_, ?_⟩
      · rw [h_new, h_tasks, Fifo.pushAll, Fifo.pushAll, Fifo.pushAll, List.foldl_append]
      · rw [straights, List.filterMap_append]
        exact congrArg₂ _ h_paths h_straights
    · rcases List.mem_append.mp h_p with h_p | h_p
      · exact absurd (h_fits p h_p) (Nat.not_le_of_lt h_long)
      · exact h_over ⟨p, h_p, h_long⟩

/-- A segment is queued, with the tasks `behind`, and the loop ends. -/
theorem AtSegment.yields_last (h : AtSegment T st' l before)
    (h_tasks : st'.navigationTasks = st.navigationTasks) (train : TrainNum) (offset : Int32)
    (f : SegmentState → SegmentState) (behind : List NavigationTask)
    (h_f : ∀ st, (f st).navigationTasks = st.navigationTasks.pushAll behind)
    (h_behind : straights behind = []) :
    Yields ((addNavigationTask T train offset st').bind fun st => .ok (f st)) st (some [l]) := by
  -- the segment is the only path there is
  obtain ⟨h_fits, h_over⟩ := @addNavigationTask_spec T st' train offset l h.items
  refine ⟨fun h_all => ?_, ?_⟩
  · obtain ⟨st₁, task, h_add, h_path, h_new, -⟩ := h_fits (h_all l (List.mem_singleton_self l))
    refine ⟨f st₁, .straight task :: behind, by rw [h_add]; rfl, ?_, ?_⟩
    · rw [h_f, h_new, h_tasks]
      rfl
    · rw [← h_path]
      exact congrArg (task.path :: ·) h_behind
  · rintro ⟨p, h_p, h_long⟩
    obtain rfl := List.mem_singleton.mp h_p
    rw [h_over h_long]
    rfl

/-- The segment in front of a reversal in the middle of the route is queued with the row behind it,
if both fit into a task, and the next segment begins with the same row, flipped. -/
theorem AtSegment.endAtMerge (h : AtSegment T st segment before) (train : TrainNum) {n : NodeNum}
    {row : List NodeNum} (h_row : T.bufferRow n = some row) :
    ((segment ++ row).length ≤ maxTaskPath → ∃ st' task, endAtMerge T train n st = .ok st' ∧
      task.path = segment ++ row ∧ st'.navigationTasks = st.navigationTasks.push (.straight task) ∧
      AtSegment T st' [] (flip T row)) ∧
    (maxTaskPath < (segment ++ row).length → endAtMerge T train n st = .error .pathOverrun) := by
  let filled : SegmentState := { st with
    segment := st.segment.pushAll row, mergeNodeNum := some n, cameFromReverse := true }
  -- the segment with the buffer nodes behind it, cut to what the buffer can hold
  have h_filled : filled.segment.items = (segment ++ row).take trackMax :=
    Fifo.items_pushAll_take h.capacity h.items row
  have h_eq : Nav.endAtMerge T train n st = (addNavigationTask T train 0 filled).bind fun st =>
      .ok st.clear := by
    unfold Nav.endAtMerge
    simp only [addBufferNodes, Option.bind_some, h_row, if_pos, bind, Except.bind]
    rfl
  obtain ⟨h_fits, h_over⟩ := @addNavigationTask_spec T filled train 0 (segment ++ row) h_filled
  rw [h_eq]
  refine ⟨fun h_le => ?_, fun h_lt => by rw [h_over h_lt]; rfl⟩
  obtain ⟨st₁, task, h_add, h_path, h_tasks, h_segment, h_came, h_merge⟩ := h_fits h_le
  -- the next segment begins with the same row
  refine ⟨st₁.clear, task, by rw [h_add]; rfl, h_path, h_tasks, ?_, List.take_nil.symm,
    .inr ⟨h_came, rfl, ?_⟩⟩
  · change st₁.segment.capacity = _
    rw [h_segment]
    exact (Fifo.capacity_pushAll _ _).trans h.capacity
  · exact ⟨n, row, h_merge, h_row, rfl⟩

theorem endAtMerge_none {n : NodeNum} (h_row : T.bufferRow n = none) (train : TrainNum)
    (st : SegmentState) :
    endAtMerge T train n st = .error .bufferRow := by
  simp [endAtMerge, addBufferNodes, h_row, bind, Except.bind]

/-- **The loop queues the straight paths**, from any point of a route on. The induction is on the
nodes that are left; `straightPaths` has the same branches as the loop, so each case is one of both,
and what comes of the rest is put behind what the branch has queued (`Yields`). -/
theorem segmentsLoop_yields (train : TrainNum) (destOffset : Int32) {rest : List NodeNum}
    (h : AtSegment T st segment before) :
    Yields (segmentsLoop T train destOffset pad rest st) st
      (straightPaths T pad segment before rest) := by
  induction rest generalizing st segment before with
  | nil => exact ⟨fun _ => ⟨st, [], rfl, rfl, rfl⟩, fun ⟨p, h_p, _⟩ => absurd h_p (by simp)⟩
  | cons n rest ih =>
    have h_pushed : st.pushReverse.navigationTasks = st.navigationTasks.pushAll [.reverse] := rfl
    rw [segmentsLoop, straightPaths]
    by_cases h_turn : rest.head?.or pad = some (T.reverse n)
    · rw [if_pos h_turn, if_pos h_turn]
      by_cases h_segment : segment = []
      · -- the train turns around before it goes anywhere
        rw [if_neg (by rw [h.count_pos]; exact not_not.mpr h_segment),
          if_neg (not_not.mpr h_segment)]
        subst h_segment
        by_cases h_last : rest.length = 1
        · rw [if_pos h_last, if_pos h_last]
          exact ⟨fun _ => ⟨_, [.reverse], rfl, rfl, rfl⟩, fun ⟨p, h_p, _⟩ => absurd h_p (by simp)⟩
        · rw [if_neg h_last, if_neg h_last]
          have h_at : AtSegment T st.pushReverse [] before := ⟨h.capacity, h.items, h.pending⟩
          have h_yields := (ih h_at).of_pushed h_pushed rfl (by simp [straights])
          simpa [straights] using h_yields
      · -- the segment ends here, in front of a reversal
        rw [if_pos (h.count_pos.mpr h_segment), if_pos h_segment]
        have h_at := h.push h_segment n
        by_cases h_last : rest.length = 1
        · rw [if_pos h_last, if_pos h_last]
          exact h_at.yields_last rfl train _ (fun st => st.clear.pushReverse) [.reverse]
            (fun _ => rfl) rfl
        · rw [if_neg h_last, if_neg h_last]
          cases h_row : T.bufferRow n with
          -- no buffer nodes are known for `n`, as for any node but a merge
          | none =>
            refine ⟨.bufferRow, ?_⟩
            change (Nav.endAtMerge T train n (st.push n)).bind _ = _
            rw [endAtMerge_none h_row]
            rfl
          | some row =>
            obtain ⟨h_fits, h_over⟩ := h_at.endAtMerge train h_row
            by_cases h_le : (segment ++ [n] ++ row).length ≤ maxTaskPath
            · obtain ⟨st₁, task, h_end, h_path, h_tasks, h_at₁⟩ := h_fits h_le
              have h_at₁' : AtSegment T st₁.pushReverse [] (flip T row) :=
                ⟨h_at₁.capacity, h_at₁.items, h_at₁.pending⟩
              -- the queue gets the task of the segment, and the reversal
              have h_new : st₁.pushReverse.navigationTasks =
                  st.navigationTasks.pushAll [.straight task, .reverse] := by
                change st₁.navigationTasks.push _ = _
                rw [h_tasks]
                rfl
              have h_yields :=
                (ih h_at₁').of_pushed h_new (show _ = [segment ++ [n] ++ row] by rw [← h_path]; rfl)
                (by simpa using h_le)
              change Yields ((Nav.endAtMerge T train n (st.push n)).bind _) _ _
              rw [h_end]
              exact h_yields
            · -- the segment is too long with its buffer nodes, and the loop fails
              have h_lt := Nat.lt_of_not_le h_le
              change Yields ((Nav.endAtMerge T train n (st.push n)).bind _) _ _
              rw [h_over h_lt, Option.bind_some]
              cases straightPaths T pad [] (flip T row) rest with
              | none => exact ⟨_, rfl⟩
              | some ps =>
                refine ⟨fun h_all => absurd (h_all _ List.mem_cons_self) h_le, fun _ => rfl⟩
    · -- the node goes into the segment, behind the buffer nodes if they are to come
      rw [if_neg h_turn, if_neg h_turn]
      obtain ⟨st₁, h_augment, h_at, h_tasks⟩ := h.augment_push n
      change Yields ((augment T st).bind _) _ _
      rw [h_augment]
      by_cases h_rest : rest = []
      · rw [if_pos h_rest]
        have h_yields :=
          h_at.yields_last h_tasks train destOffset SegmentState.clear [] (fun _ => rfl) rfl
        change Yields (if rest = [] then _ else _) _ _
        rw [if_pos h_rest]
        exact h_yields
      · rw [if_neg h_rest]
        change Yields (if rest = [] then _ else _) _ _
        rw [if_neg h_rest]
        exact (ih h_at).of_same h_tasks

theorem atSegment_start (tasks : Fifo NavigationTask) : AtSegment T (startState tasks) [] [] :=
  ⟨rfl, List.take_nil.symm, .inl ⟨rfl, rfl⟩⟩

/-- **The tasks of a route** have its straight paths, if these fit. With one that does not, the loop
writes behind the path of a task. Nothing is said here about a queue that is full: what is pushed
onto it is lost. -/
theorem segmentsFillNavigationTasks_spec (path : RoutePath) (tasks : Fifo NavigationTask)
    (train : TrainNum) (destOffset : Int32) {ps : List (List NodeNum)}
    (h : straightPaths T path.padding.head? [] [] path.nodes = some ps) :
    ((∀ p ∈ ps, p.length ≤ maxTaskPath) → ∃ new,
      segmentsFillNavigationTasks T path tasks train destOffset = .ok (tasks.pushAll new) ∧
      straights new = ps) ∧
    ((∃ p ∈ ps, maxTaskPath < p.length) →
      segmentsFillNavigationTasks T path tasks train destOffset = .error .pathOverrun) := by
  have h_yields :
      Yields (segmentsLoop T train destOffset path.padding.head? path.nodes (startState tasks))
      (startState tasks) (straightPaths T path.padding.head? [] [] path.nodes) :=
    segmentsLoop_yields train destOffset (atSegment_start tasks)
  -- the loop starts with nothing in the segment and nothing to come first
  rw [h] at h_yields
  obtain ⟨h_ok, h_over⟩ := h_yields
  rw [segmentsFillNavigationTasks, fillTasks_eq]
  refine ⟨fun h_fits => ?_, fun h_long => ?_⟩
  · obtain ⟨st, new, h_run, h_tasks, h_new⟩ := h_ok h_fits
    refine ⟨new, ?_, h_new⟩
    rw [h_run]
    exact congrArg Except.ok h_tasks
  · rw [h_over h_long]
    rfl

/-- Without the rows for it, no task is queued. -/
theorem segmentsFillNavigationTasks_fails (path : RoutePath) (tasks : Fifo NavigationTask)
    (train : TrainNum) (destOffset : Int32)
    (h : straightPaths T path.padding.head? [] [] path.nodes = none) :
    ∃ fault, segmentsFillNavigationTasks T path tasks train destOffset = .error fault := by
  have h_yields :
      Yields (segmentsLoop T train destOffset path.padding.head? path.nodes (startState tasks))
      (startState tasks) (straightPaths T path.padding.head? [] [] path.nodes) :=
    segmentsLoop_yields train destOffset (atSegment_start tasks)
  rw [h] at h_yields
  obtain ⟨fault, h_run⟩ := h_yields
  refine ⟨fault, ?_⟩
  rw [segmentsFillNavigationTasks, fillTasks_eq, h_run]
  rfl

/-! ### What `add_buffer_nodes` is asked for -/

/-- The rows that the loop reads are those of the nodes that it asks for. The induction is on the
nodes; a row that has been read once is there when it is asked for again. -/
theorem straightPaths_isSome_iff {inSegment : Bool} {came : Option NodeNum} {rest : List NodeNum}
    (h_segment : inSegment = true ↔ segment ≠ [])
    (h_came : ∀ n, came = some n → (T.bufferRow n).isSome) :
    (straightPaths T pad segment before rest).isSome ↔
      ∀ n ∈ bufferAsks T pad inSegment came rest, (T.bufferRow n).isSome := by
  induction rest generalizing segment before inSegment came with
  | nil => simp [straightPaths, bufferAsks]
  | cons n rest ih =>
    rw [straightPaths, bufferAsks]
    by_cases h_turn : rest.head?.or pad = some (T.reverse n)
    · rw [if_pos h_turn, if_pos h_turn]
      by_cases h_in : inSegment = true
      · -- at a turn the row of `n` is asked for, and again behind the turn
        rw [if_pos (h_segment.mp h_in), if_pos h_in]
        by_cases h_last : rest.length = 1
        · simp [h_last]
        · rw [if_neg h_last, if_neg h_last, List.forall_mem_cons]
          cases h_row : T.bufferRow n with
          | none => simp
          | some row =>
            have h_n : ∀ m, some n = some m → (T.bufferRow m).isSome := by
              rintro m h_m
              rw [← Option.some.inj h_m, h_row]
              rfl
            rw [Option.bind_some, Option.isSome_map,
              @ih [] (flip T row) false (some n) (by simp) h_n]
            simp
      · rw [if_neg (fun h => h_in (h_segment.mpr h)), if_neg h_in]
        by_cases h_last : rest.length = 1
        · simp [h_last]
        · rw [if_neg h_last, if_neg h_last]
          exact ih (by simp) h_came
    · -- the row that the node behind a turn asks for has been read
      rw [if_neg h_turn, if_neg h_turn]
      have h_asked :
          (∀ m ∈ came.toList ++ bufferAsks T pad true none rest, (T.bufferRow m).isSome) ↔
          ∀ m ∈ bufferAsks T pad true none rest, (T.bufferRow m).isSome := by
        rw [List.forall_mem_append, and_iff_right]
        exact fun m h_m => h_came m (Option.mem_toList.mp h_m)
      rw [h_asked]
      by_cases h_rest : rest = []
      · rw [if_pos h_rest, h_rest]
        simp [bufferAsks]
      · rw [if_neg h_rest]
        exact ih (by simp) nofun

/-- The route ends as its tail does. -/
theorem EndsRight.cons {n m : NodeNum} {rest : List NodeNum} (h : EndsRight T pad (m :: rest)) :
    EndsRight T pad (n :: m :: rest) := by
  rcases h with h_turn | h_pad
  · exact .inl (h_turn.append [n])
  · exact .inr fun k h_k => h_pad k (by rwa [List.getLast?_cons_cons] at h_k)

/-- A segment ends at `x` with buffer nodes: in the middle of the route in front of the reverse node
of `x`, or at the last node with a reversal that the route does not have. -/
def SegmentEnd (T : Track) (pad : Option NodeNum) (inSegment : Bool) (nodes : List NodeNum)
    (x : NodeNum) : Prop :=
  (∃ front q behind, nodes = front ++ x :: T.reverse x :: q :: behind ∧
    (inSegment = true ∨ front ≠ [])) ∨
    nodes.getLast? = some x ∧ ¬EndsRight T pad nodes ∧ (inSegment = true ∨ 2 ≤ nodes.length)

theorem SegmentEnd.cons {inSegment inSegment' : Bool} {n x : NodeNum} {rest : List NodeNum}
    (h : SegmentEnd T pad inSegment' rest x)
    (h_more : rest.head?.or pad = some (T.reverse n) → rest.length ≠ 1) :
    SegmentEnd T pad inSegment (n :: rest) x := by
  rcases h with ⟨front, q, behind, rfl, -⟩ | ⟨h_last, h_ends, -⟩
  · exact .inl ⟨n :: front, q, behind, rfl, .inr (List.cons_ne_nil _ _)⟩
  · cases rest with
    | nil => cases h_last
    | cons m rest =>
      refine .inr ⟨by rwa [List.getLast?_cons_cons], fun h_right => h_ends (h_right.tail ?_),
        .inr (by simp)⟩
      rintro rfl h_nil
      exact h_more rfl (by rw [h_nil]; rfl)

theorem segmentEnd_of_turn {n : NodeNum} {rest : List NodeNum}
    (h_turn : rest.head?.or pad = some (T.reverse n)) (h_more : rest.length ≠ 1) :
    SegmentEnd T pad true (n :: rest) n := by
  match rest, h_turn, h_more with
  | [], h_turn, _ => exact .inr ⟨rfl, fun h_right => h_right.not_turn h_turn, .inl rfl⟩
  | [_], _, h_more => exact absurd rfl h_more
  | m :: q :: behind, h_turn, _ =>
    obtain rfl : m = T.reverse n := Option.some.inj h_turn
    exact .inl ⟨[], q, behind, rfl, .inl rfl⟩

/-- The first node of the route ends a segment, or the end is further on; there it is an end of the
rest alone, since the route comes to no node twice. -/
theorem SegmentEnd.of_cons {inSegment : Bool} {n x : NodeNum} {rest : List NodeNum}
    (h_once : (n :: rest).Nodup) (h : SegmentEnd T pad inSegment (n :: rest) x) :
    (x = n ∧ inSegment = true ∧ rest.head?.or pad = some (T.reverse n) ∧ rest.length ≠ 1) ∨
      (rest.head?.or pad = some (T.reverse n) → rest.length ≠ 1) ∧
        SegmentEnd T pad (decide (rest.head?.or pad ≠ some (T.reverse n))) rest x := by
  -- the end is at a turn on the way, or at the last node of the route
  rcases h with ⟨front, q, behind, h_eq, h_in⟩ | ⟨h_last, h_ends, h_in⟩
  · cases front with
    -- the turn is at `n` itself
    | nil =>
      obtain ⟨rfl, rfl⟩ := List.cons.inj h_eq
      exact .inl ⟨rfl, h_in.resolve_right (by simp), rfl, by simp⟩
    | cons y front =>
      obtain ⟨rfl, rfl⟩ := List.cons.inj h_eq
      have h_more : (front ++ x :: T.reverse x :: q :: behind).length ≠ 1 := by
        simp only [List.length_append, List.length_cons]
        omega
      refine .inr ⟨fun _ => h_more, .inl ⟨front, q, behind, rfl, ?_⟩⟩
      cases front with
      | nil =>
        -- `x` is not the reverse of `n`, or the route would come back to `n`
        refine .inl (decide_eq_true fun h_turn => ?_)
        obtain rfl : x = T.reverse n := Option.some.inj h_turn
        simp at h_once
      | cons y front => exact .inr (List.cons_ne_nil _ _)
  · cases rest with
    -- `n` is the last node, and the padding turns around there
    | nil =>
      obtain rfl : n = x := Option.some.inj h_last
      refine .inl ⟨rfl, h_in.resolve_right (by simp), ?_, by simp⟩
      by_contra h_pad
      refine h_ends (.inr fun m h_m => ?_)
      obtain rfl : n = m := Option.some.inj h_m
      exact h_pad
    | cons m rest =>
      rw [List.getLast?_cons_cons] at h_last
      have h_more : (m :: rest).head?.or pad = some (T.reverse n) → rest ≠ [] := by
        rintro h_turn rfl
        obtain rfl : m = T.reverse n := Option.some.inj h_turn
        exact h_ends (.inl ⟨[], n, rfl⟩)
      refine .inr ⟨fun h_turn => by simpa using h_more h_turn,
        .inr ⟨h_last, fun h => h_ends h.cons, ?_⟩⟩
      by_cases h_turn : (m :: rest).head?.or pad = some (T.reverse n)
      · have h_pos := List.length_pos_iff.mpr (h_more h_turn)
        refine .inr ?_
        rw [List.length_cons]
        omega
      · exact .inl (decide_eq_true h_turn)

/-- **Which nodes are asked for**: the one that is still to be asked for again, and those that a
segment ends at. A segment asks twice for the node it ends at, once on the way out and once on the
way back. -/
theorem bufferAsks_cases {inSegment : Bool} {came : Option NodeNum} {nodes : List NodeNum}
    {x : NodeNum} (h : x ∈ bufferAsks T pad inSegment came nodes) :
    came = some x ∨ SegmentEnd T pad inSegment nodes x := by
  induction nodes generalizing inSegment came with
  | nil => cases h
  | cons n rest ih =>
    rw [bufferAsks] at h
    by_cases h_turn : rest.head?.or pad = some (T.reverse n)
    · rw [if_pos h_turn] at h
      by_cases h_last : rest.length = 1
      · simp [h_last] at h
      · rw [if_neg h_last, if_neg h_last] at h
        cases inSegment with
        | true =>
          rw [if_pos rfl] at h
          -- the segment ends at `n`, which is asked for now and once more
          rcases List.mem_cons.mp h with rfl | h
          · exact .inr (segmentEnd_of_turn h_turn h_last)
          · rcases ih h with h_came | h_end
            · obtain rfl := Option.some.inj h_came
              exact .inr (segmentEnd_of_turn h_turn h_last)
            · exact .inr (h_end.cons fun _ => h_last)
        | false =>
          rw [if_neg (by simp)] at h
          exact (ih h).imp_right fun h_end => h_end.cons fun _ => h_last
    · rw [if_neg h_turn] at h
      rcases List.mem_append.mp h with h | h
      · exact .inl (Option.mem_toList.mp h)
      · rcases ih h with h_came | h_end
        · cases h_came
        · exact .inr (h_end.cons fun h_eq => absurd h_eq h_turn)

/-- The last node is asked for, if the entry behind it is its reverse node and the route has no
reversal there. -/
theorem mem_bufferAsks_of_last {inSegment : Bool} {came : Option NodeNum} {nodes : List NodeNum}
    {x : NodeNum} (h_last : nodes.getLast? = some x) (h_ends : ¬EndsRight T pad nodes)
    (h_in : inSegment = true ∨ 2 ≤ nodes.length) : x ∈ bufferAsks T pad inSegment came nodes := by
  induction nodes generalizing inSegment came with
  | nil => cases h_last
  | cons n rest ih =>
    rw [bufferAsks]
    cases rest with
    | nil =>
      obtain rfl : n = x := Option.some.inj h_last
      -- the padding is the reverse node, as the route would end right otherwise
      have h_pad : pad = some (T.reverse n) := by
        by_contra h_not
        refine h_ends (.inr fun m h_m => ?_)
        obtain rfl : n = m := Option.some.inj h_m
        exact h_not
      have h_in : inSegment = true := h_in.resolve_right (by simp)
      simp [h_pad, h_in]
    | cons m rest =>
      rw [List.getLast?_cons_cons] at h_last
      have h_tail : ¬EndsRight T pad (m :: rest) := fun h => h_ends h.cons
      by_cases h_turn : (m :: rest).head?.or pad = some (T.reverse n)
      · obtain rfl : m = T.reverse n := Option.some.inj h_turn
        -- behind a turn there is more, as the route would end with it otherwise
        have h_rest : rest ≠ [] := by
          rintro rfl
          exact h_ends (.inl ⟨[], n, rfl⟩)
        have h_length : (T.reverse n :: rest).length ≠ 1 := by simpa using h_rest
        have h_two : 2 ≤ (T.reverse n :: rest).length := by
          have h_pos := List.length_pos_iff.mpr h_rest
          rw [List.length_cons]
          omega
        rw [if_pos h_turn, if_neg h_length, if_neg h_length]
        split
        · exact List.mem_cons_of_mem _ (ih h_last h_tail (.inr h_two))
        · exact ih h_last h_tail (.inr h_two)
      · rw [if_neg h_turn]
        exact List.mem_append_right _ (ih h_last h_tail (.inl rfl))

end

end Nav
end PollingExpress
