import PollingExpress.Nav.Answers
import PollingExpress.Nav.Drivable
import PollingExpress.Nav.Handover

/-!
# The pathfind worker

`pathfind_worker` of `pathworker.c`: two searches for a piece of work, one on the bare track and one
around the nodes that other trains have reserved. `pathfind_verdict` says what the worker finds out
in each case: that there is no path at all, that there is none with the reservations, the cheapest
path that passes no reserved node, or nothing, since the second search runs out of nodes.

Its message is one that the navigation server's world allows (`calls_of_pathfindWork`). So the
verdict gets through to the clients. The searches for a train go to where its client wants it to go,
also after a restart (`Asked`); and in a run in which the workers do as `pathfind_worker` does, a
client that waits is told that there is no path exactly when a worker reports and there is none on
the bare track, whatever is reserved (`told_truly`).
-/

namespace PollingExpress
namespace Nav

open Search

/-- What `pathfind_worker` finds for a piece of work: the result, and the nodes that it writes into
`path`. It searches the bare track first, and then with the reservations; the route is read off
`prev` from its end, and turned around. -/
def pathfindWork (T : RawTrack) (src dest : NodeNum) (reserved : NodeNum → Bool) :
    Except Search.Fault (PathfindResult × List NodeNum) := do
  let (result, _) ← dijkstra T src dest fun _ => false
  if result = -1 then .ok (.noPathAtAll, [])
  else
    let (result, prev) ← dijkstra T src dest reserved
    if result = -1 then .ok (.noPathWithReserve, [])
    else match followPrev prev trackMax dest with
      -- the loop over `prev` does not end
      | none => .error .outOfTurns
      | some path => .ok (.foundPath, path)

/-- What the worker finds, and when. -/
inductive Verdict {T : RawTrack} (h : T.WellFormed) (src dest : NodeNum)
    (reserved : NodeNum → Bool) :
    Except Search.Fault (PathfindResult × List NodeNum) → Prop
  | noPathAtAll (h_none : ¬T.Reached h src (fun _ => false) dest) :
      Verdict h src dest reserved (.ok (.noPathAtAll, []))
  | noPathWithReserve (h_bare : T.Reached h src (fun _ => false) dest)
      (h_none : ¬T.Reached h src reserved dest)
      (h_left : reserved dest = true → ∃ n, reserved n = false ∧ ¬T.Reached h src reserved n) :
      Verdict h src dest reserved (.ok (.noPathWithReserve, []))
  | foundPath {d : Int} {path : List NodeNum} (h_bare : T.Reached h src (fun _ => false) dest)
      (h_route : Route T.Hop path d) (h_once : path.Nodup)
      (h_head : path.head? = some src) (h_last : path.getLast? = some dest)
      (h_free : ∀ n ∈ path, reserved n = false)
      (h_least : IsLeast { c | T.WalkTo h src reserved dest c } d) :
      Verdict h src dest reserved (.ok (.foundPath, path))
  /-- The destination is reserved, and all nodes that are not have been settled. -/
  | lost (h_bare : T.Reached h src (fun _ => false) dest) (h_dest : reserved dest = true)
      (h_all : ∀ n, reserved n = false → T.Reached h src reserved n) :
      Verdict h src dest reserved (.error .noCandidate)
  /-- The source is not typed, and leads to NULL. -/
  | nowhere (h_src : (T src).type = .none) : Verdict h src dest reserved (.error .noNode)

section
variable {T : RawTrack} {src dest : NodeNum} {avoid reserved : NodeNum → Bool} {h : T.WellFormed}

/-- The ways in which a search ends: with no way, with a shortest one, without a candidate, since
the destination itself is avoided, or at a source without a type, which has no edges to follow. -/
theorem dijkstra_cases (h : T.WellFormed) (h_zeroed : T.Zeroed) (src dest : NodeNum)
    (avoid : NodeNum → Bool) :
    (∃ prev, dijkstra T src dest avoid = .ok (-1, prev) ∧ ¬T.Reached h src avoid dest ∧
      (avoid dest = true → ∃ n, avoid n = false ∧ ¬T.Reached h src avoid n)) ∨
    (∃ d prev path, dijkstra T src dest avoid = .ok (d, prev) ∧ 0 ≤ d ∧ d < inf ∧
      RouteTo T src dest avoid d prev path ∧ IsLeast { c | T.WalkTo h src avoid dest c } d) ∨
    (dijkstra T src dest avoid = .error .noCandidate ∧ avoid dest = true ∧
      ∀ n, avoid n = false → T.Reached h src avoid n) ∨
    dijkstra T src dest avoid = .error .noNode ∧ (T src).type = .none := by
  have h_ends := dijkstra_ends h src dest avoid
  generalize dijkstra T src dest avoid = r at h_ends ⊢
  cases h_ends with
  | @found s h_s h_dest h_lt h_min =>
    obtain ⟨path, h_route⟩ := h_s.routeTo h_s.dest_open h_dest h_lt
    exact .inr (.inl ⟨_, _, path, rfl, h_s.explored.nonneg dest, h_lt, h_route, h_route.walk,
      fun c h_walk => h_s.le_of_walkTo h_min h_walk⟩)
  | @unreached s u h_s h_u h_open h_min =>
    refine .inl ⟨_, rfl, fun h_reached => ?_, fun _ => ⟨u, h_u, fun h_reached => ?_⟩⟩
    · cases h_s.dest_open.symm.trans (h_s.settled_of_reached h_min h_reached)
    · cases h_open.symm.trans (h_s.settled_of_reached h_min h_reached)
  | @exhausted s h_s h_all =>
    refine .inr (.inr (.inl ⟨rfl, ?_, fun n h_n => h_s.reached (h_all n h_n)⟩))
    by_contra h_open
    cases h_s.dest_open.symm.trans (h_all dest (Bool.eq_false_iff.mpr h_open))
  | @noNode s u h_s h_u h_open h_lt _ h_none =>
    refine .inr (.inr (.inr ⟨rfl, ?_⟩))
    by_contra h_src
    -- a node that was reached from a typed one is typed, and its edges lead somewhere
    obtain ⟨e, h_e, h_none⟩ := h_none
    obtain ⟨path, h_route⟩ := h_s.routeTo h_open h_u h_lt
    have h_typed : (T u).type ≠ .none := by
      rcases typed_of_walk h_zeroed (@RouteTo.walk T src u avoid h _ _ _ h_route) with rfl | h_typed
      · exact h_src
      · exact h_typed
    obtain ⟨m, h_m, -⟩ := h.dest u h_typed e h_e
    cases h_none.symm.trans h_m

/-- **The worker's verdict**: what is found on the bare track, and around the reserved nodes. The
first search avoids nothing and decides whether there is a way at all; the second decides what is
reported, and where it fails, so does the worker. -/
theorem pathfind_verdict (h : T.WellFormed) (h_zeroed : T.Zeroed) (src dest : NodeNum)
    (reserved : NodeNum → Bool) :
    Verdict h src dest reserved (pathfindWork T src dest reserved) := by
  rw [pathfindWork]
  rcases dijkstra_cases h h_zeroed src dest fun _ => false with
    ⟨prev, h_ok, h_none, -⟩ | ⟨d, prev, path, h_ok, h_d, h_lt, -, h_least⟩ | ⟨-, h_dest, -⟩ |
      ⟨h_error, h_src⟩
  · rw [h_ok]
    exact .noPathAtAll h_none
  · have h_bare : T.Reached h src (fun _ => false) dest := ⟨d, h_lt, h_least.1⟩
    have h_some : d ≠ -1 := by omega
    refine (bind_of_ok h_ok).symm ▸ ?_
    dsimp only
    rw [if_neg h_some]
    -- the second search
    rcases dijkstra_cases h h_zeroed src dest reserved with
      ⟨prev, h_ok, h_none, h_left⟩ | ⟨d, prev, path, h_ok, h_d, h_lt, h_route, h_least⟩ |
      ⟨h_error, h_dest, h_all⟩ | ⟨h_error, h_src⟩
    · refine (bind_of_ok h_ok).symm ▸ ?_
      exact .noPathWithReserve h_bare h_none h_left
    · have h_some : d ≠ -1 := by omega
      refine (bind_of_ok h_ok).symm ▸ ?_
      dsimp only
      rw [if_neg h_some, h_route.followed]
      exact .foundPath h_bare h_route.route h_route.nodup h_route.head h_route.last
        h_route.allowed h_least
    · rw [h_error]
      exact .lost h_bare h_dest h_all
    · rw [h_error]
      exact .nowhere h_src
  · cases h_dest
  · rw [h_error]
    exact .nowhere h_src

/-- The nodes of a route are joined. -/
theorem isChain_joined {T : Track} (h : T.raw.WellFormed) {path : List NodeNum} {d : Int}
    (h_route : Route T.raw.Hop path d) : path.IsChain T.Joined := by
  refine h_route.isChain.imp ?_
  rintro n m ⟨c, h_hop⟩
  rcases Track.hop_iff.mp h_hop with h_open | ⟨-, h_eq, -⟩
  · obtain ⟨dist, h_dist, -⟩ := exists_edgeDist h ⟨c, h_open⟩
    exact .inr (h_dist ▸ rfl)
  · exact .inl h_eq

/-- The message with which the worker reports is one that it may send. -/
theorem calls_of_pathfindWork {T : Track} (h : T.raw.WellFormed) {t : TrainNum}
    {result : PathfindResult} {path : RoutePath}
    (h_work : pathfindWork T.raw src dest reserved = .ok (result, path.nodes))
    (h_padding : ∀ n ∈ path.padding, n = 0) :
    Calls T (.pathfindWorker t) (.searching (some src) (some dest))
      (.pathfindWorkerDone t result path) := by
  refine ⟨rfl, h_padding, ?_⟩
  have h_verdict := pathfind_verdict h Track.raw_zeroed src dest reserved
  rw [h_work] at h_verdict
  -- the report is one of a route only if one has been found
  generalize path.nodes = nodes at h_verdict
  cases h_verdict with
  | noPathAtAll | noPathWithReserve =>
    rw [if_neg (by simp)]
  | foundPath _ h_route h_once h_head h_last =>
    rw [if_pos rfl]
    exact ⟨h_route.ne_nil, h_once, isChain_joined h h_route, h_head, h_last⟩

end

/-! ### Where the searches go -/

/-- A worker is given a search. -/
def Given (es : List NavEvent) (source destination : Option NodeNum) : Prop :=
  ∃ c u reserved delay, .reply c (.pathfindHeresWork u source destination reserved delay) ∈ es

/-- The searches for a train start where it has been registered, and go to its destination. It is
enough that the places are known when the train leaves the idle state, and that a search that is
noted, or under way, is for the destination as it is. -/
structure Aimed (d : Desk) (p : NavTaskState) : Prop where
  placed : d.state ≠ .idle → d.trainState.regedAtNum ≠ none ∧ d.trainState.destNum ≠ none
  kept : d.search.isValid = true → d.search.sourceNum ≠ none ∧
    d.search.destinationNum = d.trainState.destNum
  searched : ∀ source destination, p.phase = .searching source destination →
    source ≠ none ∧ destination = d.trainState.destNum

section
variable {T : Track} {t : TrainNum} {client : NavTask} {d d' d₁ : Desk} {p p' q q' : NavTaskState}
  {f f' : Table} {req : NavRequest} {es : List NavEvent} {phase : NavPhase}

/-- A desk at which nobody is searching. -/
theorem Aimed.of_not_searching
    (h_placed : d.state ≠ .idle → d.trainState.regedAtNum ≠ none ∧ d.trainState.destNum ≠ none)
    (h_kept : d.search.isValid = true → d.search.sourceNum ≠ none ∧
      d.search.destinationNum = d.trainState.destNum)
    (h : ∀ source destination, p.phase ≠ .searching source destination) : Aimed d p where
  placed := h_placed
  kept := h_kept
  searched source destination h_phase := absurd h_phase (h source destination)

/-- The search that is started again is aimed. -/
theorem Aimed.restarted (h_cell : Cell t d.restarted p q)
    (h_placed : d.trainState.regedAtNum ≠ none ∧ d.trainState.destNum ≠ none) :
    Aimed d.restarted p :=
  .of_not_searching (fun _ => h_placed) (fun _ => ⟨h_placed.1, rfl⟩) fun source destination
    h_phase => by
    cases (h_cell.searching source destination h_phase).2

theorem Approach.placed {task : StraightpathTask} (h : Approach T t d d₁ es task)
    (h_placed : d.trainState.regedAtNum ≠ none ∧ d.trainState.destNum ≠ none) :
    d₁.trainState.regedAtNum ≠ none ∧ d₁.trainState.destNum ≠ none := by
  cases h with
  | straight => exact h_placed
  | turned => exact ⟨Option.some_ne_none _, h_placed.2⟩

theorem NextTask.aimed (h : NextTask T t d f es d' f') (h_cell : Cell t d' p q)
    (h_state : d.state = .straightpathing) (h_valid : d.search.isValid = false)
    (h_placed : d.trainState.regedAtNum ≠ none ∧ d.trainState.destNum ≠ none) : Aimed d' p := by
  cases h with
  | drive h_app =>
    obtain ⟨-, -, h_search, h_same, -⟩ := h_app.desk
    -- the train is at the end of the path that it drives, and its destination stays
    refine .of_not_searching (fun _ => ⟨Option.some_ne_none _, (h_app.placed h_placed).2⟩)
      (fun h => ?_)
      (h_cell.not_searching (by simp [h_same, h_state]))
    cases h_valid.symm.trans (h_search ▸ h)
  | blocked h_app => exact .restarted h_cell (h_app.placed h_placed)
  -- a train that has arrived is IDLE
  | arrive =>
    refine .of_not_searching (fun h => absurd (Desk.finished_state _) h) (fun h => ?_)
      (h_cell.not_searching (by simp))
    rw [Desk.finished_search] at h
    cases h_valid.symm.trans h

/-- **The step of a train** keeps its searches aimed, if a worker searches only what it has searched
before, or has been given just now. A new destination comes only with an accepted request, when the
train is idle and nothing searches for it. -/
theorem Aimed.step (h : Aimed d p) (h_cell : Cell t d p q)
    (h_step : DeskStep T t client d f req es d' f')
    (h_done : ∀ result path, req = .pathfindWorkerDone t result path →
      d.state = .pathfinding ∧ d.search.isValid = false)
    (h_cell' : Cell t d' p' q')
    (h_given : ∀ source destination, p'.phase = .searching source destination →
      p.phase = .searching source destination ∨ Given es source destination) : Aimed d' p' := by
  -- where the desk's places stay as they are, so does what the worker searches, if it is given
  -- nothing
  have h_same : (∀ source destination, ¬Given es source destination) → ∀ source destination,
      p'.phase = .searching source destination →
        source ≠ none ∧ destination = d.trainState.destNum :=
    fun h_none source destination h_phase =>
      h.searched _ _ ((h_given _ _ h_phase).resolve_right (h_none source destination))
  cases h_step with
  | busy | needRegister | drove | parkPathfinder | parkDriver =>
    exact ⟨h.placed, h.kept, h_same (by simp [Given])⟩
  | register =>
    exact ⟨fun h_state => ⟨Option.some_ne_none _, (h.placed h_state).2⟩, h.kept,
      h_same (by simp [Given])⟩
  -- what is given to a worker is what the client asks for, or what was kept
  | @search n source _ _ _ h_idle h_source h_parked =>
    refine ⟨fun _ => ⟨by simp [Desk.accepted, h_source], by simp [Desk.accepted]⟩,
      fun h_valid => ?_,
      fun s e h_phase => ?_⟩
    · exact absurd (h_cell.valid h_valid) (by simp [h_idle])
    · obtain h_before | ⟨c, u, reserved, delay, h_mem⟩ := h_given s e h_phase
      · exact absurd h_before (h_cell.not_searching (by simp [h_idle]) s e)
      · obtain ⟨-, -, rfl, rfl, -⟩ := by simpa using h_mem
        exact ⟨Option.some_ne_none _, rfl⟩
  | searchLater h_idle h_source =>
    refine .of_not_searching (fun _ => ⟨by simp [Desk.accepted, h_source], by simp [Desk.accepted]⟩)
      (fun _ => ⟨Option.some_ne_none _, rfl⟩) fun s e h_phase => ?_
    cases (h_cell'.searching s e h_phase).2
  | giveSearch h_state h_valid =>
    refine ⟨h.placed, nofun, fun s e h_phase => ?_⟩
    obtain h_before | ⟨c, u, reserved, delay, h_mem⟩ := h_given s e h_phase
    · exact h.searched s e h_before
    · obtain ⟨-, -, rfl, rfl, -⟩ := by simpa using h_mem
      exact h.kept h_valid
  | noPath =>
    exact .of_not_searching (fun h_state => absurd rfl h_state) h.kept (h_cell'.not_searching nofun)
  | searchAgain =>
    have h_state := (h_done _ _ rfl).1
    exact .restarted h_cell' (by simpa using h.placed (by simp [h_state]))
  | follow =>
    have h_state := (h_done _ _ rfl).1
    exact .of_not_searching (fun _ => by simpa using h.placed (by simp [h_state]))
      (by simpa using h.kept)
      (h_cell'.not_searching (by simp))
  | followNow _ _ _ _ h_next =>
    obtain ⟨h_state, h_valid⟩ := h_done _ _ rfl
    exact h_next.aimed h_cell' (by simp) (by simpa using h_valid)
      (by simpa using h.placed (by simp [h_state]))
  | next h_state h_tasks h_next =>
    exact h_next.aimed h_cell' h_state (h_cell.invalid (by simp [h_state]))
      (h.placed (by simp [h_state]))
  | arrived =>
    exact .of_not_searching (fun h_state => absurd (Desk.finished_state _) h_state)
      (by simpa using h.kept)
      (h_cell'.not_searching (by simp))

/-- The destination of the train is that of the last request that was accepted. -/
theorem DeskStep.destNum_cases (h_step : DeskStep T t client d f req es d' f') :
    d'.trainState.destNum = d.trainState.destNum ∧
      (∀ n offset hang, req = .navigationRequest t n offset hang → heardBy client es ≠ []) ∨
    d.state = .idle ∧ ∃ n offset hang, req = .navigationRequest t n offset hang ∧
      d'.trainState.destNum = some n := by
  -- the next task changes where the train is, and not where it goes
  have h_next : ∀ {d es d' f f'}, NextTask T t d f es d' f' →
      d'.trainState.destNum = d.trainState.destNum := by
    intro d es d' f f' h
    cases h with
    | drive h_app | blocked h_app => cases h_app <;> rfl
    | arrive => simp [Desk.turned]
  cases h_step with
  | busy | needRegister => exact .inl ⟨rfl, fun _ _ _ _ => by simp⟩
  | search h_idle | searchLater h_idle => exact .inr ⟨h_idle, _, _, _, rfl, rfl⟩
  | parkPathfinder | giveSearch | noPath | parkDriver | drove | register =>
    exact .inl ⟨rfl, fun _ _ _ h_eq => by cases h_eq⟩
  | searchAgain => exact .inl ⟨by simp [Desk.restarted], fun _ _ _ h_eq => by cases h_eq⟩
  | follow | arrived => exact .inl ⟨by simp, fun _ _ _ h_eq => by cases h_eq⟩
  | followNow _ _ _ _ h => exact .inl ⟨by simpa using h_next h, fun _ _ _ h_eq => by cases h_eq⟩
  | next _ _ h => exact .inl ⟨(h_next h).trans rfl, fun _ _ _ h_eq => by cases h_eq⟩

end

section World
variable {T : Track} {w w' : NavWorld} {m : NavMessage} {s e : Option NodeNum}

theorem NavTaskState.searching_of_hear {l : List NavResponse} {x : NavTaskState}
    (h : (l.foldl hear x).phase = .searching s e) :
    x.phase = .searching s e ∨ ∃ u reserved delay, .pathfindHeresWork u s e reserved delay ∈ l := by
  induction l generalizing x with
  | nil => exact .inl h
  | cons res l ih =>
    obtain h | ⟨u, reserved, delay, h_mem⟩ := ih h
    · refine .inr ?_
      unfold hear at h
      dsimp only at h
      -- the last thing it hears is what it searches, if it is a search
      split at h
      · cases h
        exact ⟨_, _, _, List.mem_cons_self⟩
      · cases h
      · cases h
    · exact .inr ⟨u, reserved, delay, List.mem_cons_of_mem _ h_mem⟩

/-- What a worker searches it has searched before, or has been given. -/
theorem TrainStep.given {t : TrainNum} {es : List NavEvent} {d' : Desk} {f' : Table}
    (h : Coupled T w) (h_step : TrainStep T w w' m t es d' f')
    (h_phase : (w'.tasks (.pathfindWorker t)).phase = .searching s e) :
    (w.tasks (.pathfindWorker t)).phase = .searching s e ∨ Given es s e := by
  rw [h_step.own_cell h not_isOther_pathfindWorker] at h_phase
  obtain h_phase | ⟨u, reserved, delay, h_mem⟩ := NavTaskState.searching_of_hear h_phase
  · -- sending a message does not change the phase
    refine .inl (h_phase ▸ ?_)
    rw [NavTaskState.sends]
    split <;> rfl
  · obtain ⟨ev, h_ev, h_mem⟩ := List.mem_filterMap.mp h_mem
    split at h_mem
    · split at h_mem
      · obtain rfl := Option.some.inj h_mem
        exact .inr ⟨_, _, _, _, h_ev⟩
      · cases h_mem
    · cases h_mem

/-- The searches of all trains are aimed, and the clients that wait are navigated to where they
asked for. So what a search finds is about the node that the client has asked for. -/
structure Asked (w : NavWorld) : Prop where
  aimed : ∀ t, Aimed (w.server.desk t) (w.tasks (.pathfindWorker t))
  asked : ∀ k t n offset hang, (w.tasks (.other k)).waiting =
    some (.navigationRequest t n offset hang) →
    (w.server.desk t).trainState.destNum = some n

theorem asked_start : Asked .start where
  aimed _ := .of_not_searching (fun h => absurd rfl h) (fun h => by cases h) fun _ _ h => by cases h
  asked _ _ _ _ _ h := by cases h

/-- A step keeps the searches of every train aimed: the train of the message by the inversion, and
the others since nothing of theirs has changed. -/
theorem Asked.step_aimed (h_w : Coupled T w) (h : Asked w) (h_step : (worldSystem T).step w m w')
    (t : TrainNum) :
    Aimed (w'.server.desk t) (w'.tasks (.pathfindWorker t)) := by
  have h_w' := h_w.step h_step
  obtain ⟨h_send, ⟨u, es, d', f', h_train⟩ | ⟨h_shared, h_after⟩⟩ :=
    world_step_cases h_w.symmetric h_step
  · by_cases h_u : t = u
    · subst h_u
      have h_desk : w'.server.desk t = d' := by rw [h_train.desk, Function.update_self]
      have h_cell' := h_w'.cells t
      rw [h_desk] at h_cell' ⊢
      refine (h.aimed t).step (h_w.cells t) h_train.step
        (fun result path h_req => ?_) h_cell' fun _ _ => h_train.given h_w
      obtain ⟨h_client, source, destination, h_phase, -⟩ :=
        (h_req ▸ h_send.2 : Calls T _ _ _).pathfindWorkerDone
      exact (h_w.cells t).searching source destination (h_client ▸ h_phase)
    · rw [h_train.desk, Function.update_of_ne h_u,
        h_train.other_cells h_w h_send not_isOther_pathfindWorker ⟨by simp [h_u], by simp⟩]
      exact h.aimed t
  · -- a message about no train leaves the desk; the worker may have said who it is
    obtain ⟨own, s₁, a, b, fl, h_fl, h_desk, -⟩ := h_shared.effect
    have h_same : w'.server.desk t = w.server.desk t := by rw [h_fl.desk, h_desk]
    rw [h_same]
    obtain ⟨-, h_p⟩ | ⟨-, h_p⟩ := h_shared.worker h_w h_after h_send (@not_isOther_pathfindWorker t)
    · rw [h_p]
      exact h.aimed t
    · rw [h_p]
      exact .of_not_searching (h.aimed t).placed (h.aimed t).kept nofun

/-- A step keeps the aim. A client that waits has just sent its request, which set the destination,
or it waited before, and then the train is not idle and its destination stays. -/
theorem Asked.step (h_w : Coupled T w) (h_ans : Answering w) (h : Asked w)
    (h_step : (worldSystem T).step w m w') :
    Asked w' := by
  refine ⟨fun t => h.step_aimed h_w h_step t, fun k t n offset hang h_wait => ?_⟩
  rw [waiting_of_step h_step, w.waiting_sent] at h_wait
  split at h_wait
  swap
  · cases h_wait
  next h_nil =>
  split at h_wait
  · -- the request has just been sent, and has not been answered
    next h_sender =>
    have h_req := Option.some.inj h_wait
    obtain ⟨-, ⟨u, es, d', f', h_train⟩ | ⟨h_shared, -⟩⟩ := world_step_cases h_w.symmetric h_step
    · have h_desk := h_train.step
      rw [h_req] at h_desk
      obtain rfl : u = t := by cases h_desk <;> rfl
      rw [h_train.desk, Function.update_self]
      obtain ⟨-, h_answered⟩ | ⟨-, n', _, _, h_req', h_dest⟩ := h_desk.destNum_cases
      · obtain ⟨_, _, fl, -, h_log, -⟩ := h_train.printed
        rw [NavWorld.newEvents_eq h_log, heardBy_append, h_sender] at h_nil
        exact absurd (List.append_eq_nil_iff.mp h_nil).1 (h_answered n offset hang rfl)
      · cases h_req'
        exact h_dest
    · rw [h_req] at h_shared
      cases h_shared
  · -- the train is not idle, so its destination stays
    obtain ⟨-, h_busy, -⟩ := (h_ans.pending t).recorded k n offset hang h_wait
    obtain h_same | ⟨es, d', f', h_train, h_desk⟩ := desk_of_step h_w.symmetric h_step t
    · rw [h_same]
      exact h.asked k t n offset hang h_wait
    · rw [h_desk]
      obtain ⟨h_dest, -⟩ | ⟨h_idle, -⟩ := h_train.step.destNum_cases
      · exact h_dest.trans (h.asked k t n offset hang h_wait)
      · exact absurd h_idle h_busy

/-- **Aim.** In every reachable world, whatever the run is asked for. The three invariants are shown
together, since a step of one looks at the others before it. -/
theorem asked_of_reaches {ok : NavWorld → NavMessage → Prop} {ms : List NavMessage}
    (h : (worldSystem T).Reaches ok ms w) :
    Coupled T w ∧ Answering w ∧ Asked w := by
  induction h with
  | start h =>
    obtain rfl := h
    exact ⟨coupled_start, answering_start, asked_start⟩
  | next _ _ h_step ih =>
    obtain ⟨h_w, h_ans, h_asked⟩ := ih
    exact ⟨h_w.step h_step, h_ans.step h_w h_step, h_asked.step h_w h_ans h_step⟩

end World

/-! ### What the clients are told -/

/-- A pathfind worker does as `pathfind_worker` does. -/
def Works (T : Track) (w : NavWorld) (m : NavMessage) : Prop :=
  ∀ t result path src dest, m.req = .pathfindWorkerDone t result path →
    (w.tasks m.client).phase = .searching (some src) (some dest) →
    ∃ reserved, pathfindWork T.raw src dest reserved = .ok (result, path.nodes)

/-- The worker of `t` reports, after a search to `n`. -/
def Reports (w : NavWorld) (m : NavMessage) (t : TrainNum) (src n : NodeNum) : Prop :=
  (∃ result path, m.req = .pathfindWorkerDone t result path) ∧
    (w.tasks (.pathfindWorker t)).phase = .searching (some src) (some n)

section
variable {T : Track} {w w' : NavWorld} {m : NavMessage} {ms : List NavMessage} {k : ℕ}
  {t : TrainNum} {n : NodeNum} {offset : Int32} {hang : Bool}

/-- A report for a train whose client waits is about where the client wants to go. -/
theorem exists_reports (h_asked : Asked w) (h_send : w.MaySend T m) {result : PathfindResult}
    {path : RoutePath} (h_req : m.req = .pathfindWorkerDone t result path)
    (h_wait : (w.tasks (.other k)).waiting = some (.navigationRequest t n offset hang)) :
    ∃ src, Reports w m t src n := by
  obtain ⟨h_client, source, destination, h_phase, -⟩ :=
    (h_req ▸ h_send.2 : Calls T _ _ _).pathfindWorkerDone
  rw [h_client] at h_phase
  obtain ⟨h_source, h_dest⟩ := (h_asked.aimed t).searched _ _ h_phase
  obtain ⟨src, rfl⟩ := Option.ne_none_iff_exists'.mp h_source
  rw [h_asked.asked k t n offset hang h_wait] at h_dest
  exact ⟨src, ⟨result, path, h_req⟩, h_dest ▸ h_phase⟩

/-- The result says whether there is a path on the bare track. -/
theorem Works.noPathAtAll_iff (h : T.raw.WellFormed) (h_works : Works T w m)
    (h_send : w.MaySend T m) {result : PathfindResult} {path : RoutePath} {src : NodeNum}
    (h_req : m.req = .pathfindWorkerDone t result path) (h_reports : Reports w m t src n) :
    result = .noPathAtAll ↔ ¬T.raw.Reached h src (fun _ => false) n := by
  obtain ⟨h_client, -⟩ := (h_req ▸ h_send.2 : Calls T _ _ _).pathfindWorkerDone
  obtain ⟨reserved, h_work⟩ := h_works t result path src n h_req (h_client ▸ h_reports.2)
  have h_verdict := pathfind_verdict h Track.raw_zeroed src n reserved
  rw [h_work] at h_verdict
  generalize path.nodes = nodes at h_verdict
  cases h_verdict with
  | noPathAtAll h_none => exact ⟨fun _ => h_none, fun _ => rfl⟩
  | noPathWithReserve h_bare | foundPath h_bare => exact ⟨nofun, fun h_none => absurd h_bare h_none⟩

theorem good_of_heardBy_answers {c : NavTask} {d : Desk} :
    ∀ res ∈ heardBy c d.answers, res = .good := by
  rw [Desk.answers]
  split
  · rw [heardBy_reply]
    split <;> simp
  · exact fun res h_res => absurd h_res List.not_mem_nil

theorem good_of_heardBy_finishAnswers {c : NavTask} {d : Desk} :
    ∀ res ∈ heardBy c d.finishAnswers, res = .good := by
  rw [Desk.finishAnswers]
  split
  · rw [heardBy_reply]
    split <;> simp
  · exact fun res h_res => absurd h_res List.not_mem_nil

/-- Only the driver is told anything but `GOOD`. -/
theorem NextTask.told {c : NavTask} {d d' : Desk} {f f' : Table} {es : List NavEvent}
    (h : NextTask T t d f es d' f') (h_driver : d.driver ≠ some c) :
    ∀ res ∈ heardBy c es, res = .good := by
  cases h with
  | drive h_app =>
    obtain ⟨-, h_same, -, -, -, -, h_quiet⟩ := h_app.desk
    rw [heardBy_append, h_quiet, heardBy_reply_ne (h_same ▸ h_driver)]
    exact fun res h_res => absurd h_res List.not_mem_nil
  | blocked h_app =>
    rw [h_app.desk.2.2.2.2.2.2 c]
    exact fun res h_res => absurd h_res List.not_mem_nil
  | arrive =>
    rw [heardBy_hardReverse]
    exact good_of_heardBy_finishAnswers

/-- What the client of the train is told: that there is no path with a report of no path at all, and
nothing but `Good` otherwise. -/
theorem DeskStep.told {c client : NavTask} {d d' : Desk} {p q : NavTaskState} {f f' : Table}
    {req : NavRequest} {es : List NavEvent} (h_step : DeskStep T t client d f req es d' f')
    (h_cell : Cell t d p q) (h_c : c.IsOther) (h_ne : client ≠ c) (h_client : d.client = some c) :
    (∃ path, req = .pathfindWorkerDone t .noPathAtAll path) ∧ heardBy c es = [.noPath] ∨
      (∀ path, req ≠ .pathfindWorkerDone t .noPathAtAll path) ∧ ∀ res ∈ heardBy c es,
        res = .good := by
  have h_ne' : some client ≠ some c := fun h_eq => h_ne (Option.some.inj h_eq)
  have h_some : d.client ≠ none := by simp [h_client]
  -- the parked workers are not the client
  have h_pathfinder : d.pathfinder ≠ some c := by
    rintro h_eq
    obtain h_none | h_parked := h_cell.pathfinder
    · simp [h_none.1] at h_eq
    · exact not_isOther_pathfindWorker (Option.some.inj (h_parked.1.symm.trans h_eq) ▸ h_c)
  have h_driver : d.driver ≠ some c := by
    rintro h_eq
    obtain h_none | h_parked := h_cell.driver
    · simp [h_none.1] at h_eq
    · exact not_isOther_straightpathWorker (Option.some.inj (h_parked.1.symm.trans h_eq) ▸ h_c)
  cases h_step with
  | busy | needRegister | giveSearch | drove | register =>
    rw [heardBy_reply_ne h_ne']
    exact .inr ⟨fun _ h_eq => (by cases h_eq), fun res h_res => absurd h_res List.not_mem_nil⟩
  | search =>
    rw [heardBy_reply_ne h_pathfinder]
    exact .inr ⟨fun _ h_eq => (by cases h_eq), fun res h_res => absurd h_res List.not_mem_nil⟩
  | searchLater | parkPathfinder | parkDriver =>
    exact .inr ⟨fun _ h_eq => (by cases h_eq), fun res h_res => absurd h_res List.not_mem_nil⟩
  -- the one report that has the client told that there is no path
  | noPath =>
    rw [heardBy_reply_ne h_ne', h_client, heardBy_reply_self]
    exact .inl ⟨⟨_, rfl⟩, rfl⟩
  | searchAgain =>
    rw [heardBy_reply_ne h_ne']
    exact .inr ⟨fun _ h_eq => (by cases h_eq), good_of_heardBy_answers⟩
  -- a path was found, or its client has been answered
  | follow h_path =>
    rw [heardBy_reply_ne h_ne']
    refine .inr ⟨fun path h_eq => ?_, good_of_heardBy_answers⟩
    cases h_eq
    exact h_path ⟨h_some, rfl⟩
  | followNow h_path _ _ _ h_next =>
    rw [List.cons_append, heardBy_reply_ne h_ne', heardBy_append, heardBy_nextTask]
    refine .inr ⟨fun path h_eq => ?_, fun res h_res => ?_⟩
    · cases h_eq
      exact h_path ⟨h_some, rfl⟩
    · rcases List.mem_append.mp h_res with h_res | h_res
      · exact good_of_heardBy_answers res h_res
      · exact h_next.told (by simpa using h_driver) res h_res
  | next _ _ h_next =>
    rw [heardBy_nextTask]
    exact .inr ⟨fun _ h_eq => (by cases h_eq), h_next.told h_ne'⟩
  -- the navigation is over, and its client is told so
  | arrived =>
    rw [heardBy_append, heardBy_reply_ne h_ne', heardBy_nil, List.append_nil]
    exact .inr ⟨fun _ h_eq => (by cases h_eq), good_of_heardBy_finishAnswers⟩

/-- What the client hears at a report for its train. A client that hangs may hear nothing yet;
whatever one hears is what the report says. -/
theorem heard_of_report (h_w : Coupled T w) (h_ans : Answering w)
    (h_step : (worldSystem T).step w m w')
    (h_wait : (w.tasks (.other k)).waiting = some (.navigationRequest t n offset hang))
    {result : PathfindResult} {path : RoutePath}
    (h_req : m.req = .pathfindWorkerDone t result path) :
    result = .noPathAtAll ∧ heardBy (.other k) (NavWorld.newEvents w.server w'.server) = [.noPath] ∨
      result ≠ .noPathAtAll ∧ ∀ res ∈ heardBy (.other k) (NavWorld.newEvents w.server w'.server),
        res = .good := by
  obtain ⟨h_send, ⟨u, es, d', f', h_train⟩ | ⟨h_shared, -⟩⟩ := world_step_cases h_w.symmetric h_step
  · obtain rfl := h_train.step.not_shared.2.2 t result path h_req
    obtain ⟨h_client, -⟩ := (h_ans.pending t).recorded k n offset hang h_wait
    -- the client waits, so it is no printer, and not the sender
    obtain ⟨_, _, fl, h_printed, h_log, -⟩ := h_train.printed
    have h_fl : heardBy (.other k) fl = [] := by
      refine h_printed.heardBy (fun h_eq => ?_) fun h_eq => ?_
      · cases h_wait.symm.trans (h_ans.reservation _ h_eq)
      · cases h_wait.symm.trans (h_ans.trainstate _ h_eq)
    have h_ne : m.client ≠ .other k := by
      intro h_eq
      rw [← h_eq, h_send.1] at h_wait
      cases h_wait
    rw [NavWorld.newEvents_eq h_log, heardBy_append, h_fl, List.append_nil]
    obtain ⟨⟨_, h_path⟩, h_heard⟩ | ⟨h_not, h_heard⟩ :=
      h_train.step.told (h_w.cells t) ⟨k, rfl⟩ h_ne h_client
    · cases h_req.symm.trans h_path
      exact .inl ⟨rfl, h_heard⟩
    · exact .inr ⟨fun h_eq => h_not path (h_eq ▸ h_req), h_heard⟩
  · rw [h_req] at h_shared
    cases h_shared

/-- The client that waits for train `t` to be sent to `n` is told whether there is a way on the bare
track: the answer comes with the report of a search, from where the train was to `n`, and says what
is true of the two. -/
structure ToldTruly (h : T.raw.WellFormed) (w w' : NavWorld) (m : NavMessage) (k : ℕ) (t : TrainNum)
    (n : NodeNum) (hang : Bool) : Prop where
  noPath : .noPath ∈ heardBy (.other k) (NavWorld.newEvents w.server w'.server) ↔
    ∃ src, Reports w m t src n ∧ ¬T.raw.Reached h src (fun _ => false) n
  /-- A client that hangs has to wait for the train. -/
  good : hang = false → (.good ∈ heardBy (.other k) (NavWorld.newEvents w.server w'.server) ↔
    ∃ src, Reports w m t src n ∧ T.raw.Reached h src (fun _ => false) n)

/-- **Who is told what.** In every run in which the pathfind workers do as `pathfind_worker` does.

The search that a worker reports on is the one for the client that waits (`asked_of_reaches`), from
where the train was when it was handed over. `pathfind_worker` searches the bare track first, and
with the reservations only if there is a way on it, so the report says what can be reached there
(`Works.noPathAtAll_iff`). -/
theorem told_truly (h_wf : T.raw.WellFormed) (h : (worldSystem T).Reaches (Works T) ms w)
    (h_wait : (w.tasks (.other k)).waiting = some (.navigationRequest t n offset hang))
    (h_works : Works T w m) (h_step : (worldSystem T).step w m w') :
    ToldTruly h_wf w w' m k t n hang := by
  -- the search under way is for what the waiting client has asked for
  obtain ⟨h_w, h_ans, h_asked⟩ := asked_of_reaches h
  have h_heard :=
    fun result path =>
      @heard_of_report T w w' m k t n offset hang h_w h_ans h_step h_wait result path
  have h_iff :=
    fun {src result path} => @Works.noPathAtAll_iff T w m t n h_wf h_works h_step.1 result path src
  obtain ⟨-, -, h_hang⟩ := (h_ans.pending t).recorded k n offset hang h_wait
  -- a request that waits is answered by this message, or not at all
  have h_answer := answer_of_step h_w h_ans h_step h_wait
  generalize h_eq : heardBy (.other k) (NavWorld.newEvents w.server w'.server) = heard
    at h_heard h_answer
  constructor
  · rw [h_eq]
    constructor
    · -- `NO_PATH` is the answer to a report
      intro h_mem
      obtain ⟨result, path, h_req⟩ : ∃ result path, m.req = .pathfindWorkerDone t result path := by
        obtain ⟨rfl, -⟩ | ⟨res, rfl, h_time⟩ := h_answer
        · cases h_mem
        · obtain rfl := List.mem_singleton.mp h_mem
          rw [InTime] at h_time
          split at h_time
          · obtain ⟨-, path, h_req⟩ | ⟨h_eq, -⟩ := h_time
            · exact ⟨_, path, h_req⟩
            · cases h_eq
          · exact h_time
      obtain ⟨src, h_reports⟩ := exists_reports h_asked h_step.1 h_req h_wait
      obtain ⟨h_none, -⟩ | ⟨-, h_good⟩ := h_heard result path h_req
      · exact ⟨src, h_reports, (h_iff h_req h_reports).mp h_none⟩
      · cases h_good _ h_mem
    · rintro ⟨src, h_reports, h_none⟩
      obtain ⟨result, path, h_req⟩ := h_reports.1
      obtain ⟨-, rfl⟩ | ⟨h_path, -⟩ := h_heard result path h_req
      · exact List.mem_singleton_self _
      · exact absurd ((h_iff h_req h_reports).mpr h_none) h_path
  · rintro rfl
    rw [h_eq]
    constructor
    · -- `GOOD` is the answer to a report too, since the client does not hang
      intro h_mem
      obtain ⟨result, path, h_req⟩ : ∃ result path, m.req = .pathfindWorkerDone t result path := by
        obtain ⟨rfl, -⟩ | ⟨res, -, h_time⟩ := h_answer
        · cases h_mem
        · rwa [InTime, if_neg (by simp [h_hang])] at h_time
      obtain ⟨src, h_reports⟩ := exists_reports h_asked h_step.1 h_req h_wait
      obtain ⟨-, rfl⟩ | ⟨h_path, -⟩ := h_heard result path h_req
      · cases List.mem_singleton.mp h_mem
      · exact ⟨src, h_reports, not_not.mp fun h_none => h_path ((h_iff h_req h_reports).mpr h_none)⟩
    · rintro ⟨src, h_reports, h_bare⟩
      obtain ⟨result, path, h_req⟩ := h_reports.1
      obtain ⟨h_none, -⟩ | ⟨-, h_good⟩ := h_heard result path h_req
      · exact absurd h_bare ((h_iff h_req h_reports).mp h_none)
      · -- a client that does not hang is answered now
        obtain ⟨-, h_hangs⟩ | ⟨res, rfl, -⟩ := h_answer
        · cases h_hangs h_reports.1
        · rw [h_good res (List.mem_singleton_self _)]
          exact List.mem_singleton_self _

end

theorem pathfindWork_ring : pathfindWork ringTrack.raw 4 8 (fun _ => false) =
      .ok (.foundPath, [4, 6, 8]) := by
  decide +kernel

/-- The message is no report of a pathfind worker. -/
def unreported : NavRequest → Bool
  | .pathfindWorkerDone .. => false
  | _ => true

/-- The message asks for a way for train `t` to `n`. -/
def asksFor (t : TrainNum) (n : NodeNum) (hang : Bool) : NavRequest → Bool
  | .navigationRequest t' n' _ hang' => t' = t ∧ n' = n ∧ hang' = hang
  | _ => false

def isGood : NavResponse → Bool
  | .good => true
  | _ => false

/-- Train 0 is at node 4, and is sent to node 8. The report of its worker may be sent, since
`pathfind_worker` makes it (`calls_of_pathfindWork`). -/
theorem told_truly_ring : ∃ w m w', (worldSystem ringTrack).step w m w' ∧
    ToldTruly ringTrack_wellFormed w w' m 1 0 8 false ∧
    .good ∈ heardBy (.other 1) (NavWorld.newEvents w.server w'.server) := by
  obtain ⟨w, h_reach, h_wait, h_free, h_phase, h_next⟩ :=
    System.exists_reaches_of_play (@worldNext_step ringTrack)
    (fun _ m => unreported m.req = true)
    (fun w => (w.tasks (.other 1)).waiting.any (asksFor 0 8 false) = true ∧
      (w.tasks (.pathfindWorker 0)).waiting = none ∧
      (w.tasks (.pathfindWorker 0)).phase = .searching (some 4) (some 8) ∧
      (navNext ringTrack w.server (foundRoute [4, 6, 8] (by decide))).any fun s' =>
        (heardBy (.other 1) (NavWorld.newEvents w.server s')).any isGood)
    [⟨.other 0, .registerLocation 0 4⟩, ⟨.pathfindWorker 0, .whoami .pathfind⟩,
      ⟨.pathfindWorker 0, .pathfindWorker 0⟩, ⟨.other 1, .navigationRequest 0 8 0 false⟩] rfl
    (by decide +kernel)
  -- nobody has reported so far
  have h_reach : (worldSystem ringTrack).Reaches (Works ringTrack) _ w :=
    h_reach.mono fun w m h_m t result path src dest h_req => by
      rw [h_req] at h_m
      cases h_m
  obtain ⟨req, h_wait, h_req⟩ := (Option.any_eq_true _ _).mp h_wait
  obtain ⟨s', h_next, h_good⟩ := (Option.any_eq_true _ _).mp h_next
  have h_calls : Calls ringTrack (.pathfindWorker 0) (.searching (some 4) (some 8))
      (foundRoute [4, 6, 8] (by decide)).req :=
    calls_of_pathfindWork ringTrack_wellFormed pathfindWork_ring fun n h_n =>
      List.eq_of_mem_replicate h_n
  have h_step : (worldSystem ringTrack).step w (foundRoute [4, 6, 8] (by decide)) _ :=
    ⟨⟨h_free, h_phase ▸ h_calls⟩, s', navNext_step _ _ _ h_next, rfl⟩
  unfold asksFor at h_req
  split at h_req
  · next t n offset hang =>
    obtain ⟨rfl, rfl, rfl⟩ := of_decide_eq_true h_req
    have h_works : Works ringTrack w (foundRoute [4, 6, 8] (by decide)) := by
      intro t result path src dest h_req h_searching
      cases h_req
      cases h_phase.symm.trans h_searching
      exact ⟨fun _ => false, pathfindWork_ring⟩
    have h_told := told_truly ringTrack_wellFormed h_reach h_wait h_works h_step
    obtain ⟨res, h_res, h_good⟩ := List.any_eq_true.mp h_good
    unfold isGood at h_good
    split at h_good
    · exact ⟨w, _, _, h_step, h_told, h_res⟩
    · cases h_good
  · cases h_req

end Nav
end PollingExpress
