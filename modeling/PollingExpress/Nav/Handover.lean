import PollingExpress.Nav.Coupling

/-!
# No work is lost

A pending search is not left lying while the pathfind worker of the train is parked, nor
a task while the straightpath worker is (`NoLostWork`). The second holds in every
reachable world. The first does as long as no straight path is found blocked while the
pathfind worker is parked (`HandsOver`): `restart_pathfind` only notes the search, and
when it is reached from STRAIGHTPATH_WORKER, with the pathfind worker parked, nobody
looks at the note again, since a request for the train is now answered with BUSY.
-/

namespace PollingExpress

open Ownership

namespace Nav

/-- No work is left lying beside a worker that waits for it: neither a search that is noted, nor a
task in the queue. Such work would lie there for ever, since the worker calls again only when it has
been given something. -/
structure NoLostWork (s : NavServer) : Prop where
  search : ∀ t, ¬(s.states t = .pathfinding ∧ (s.pathfindTasks t).isValid = true ∧
    s.pathfindWorkersParking t ≠ none)
  task : ∀ t, ¬(s.states t = .straightpathing ∧ (s.navigationTasks t).items ≠ [] ∧
    s.straightpathWorkersParking t ≠ none)

/-- The straight path that `process_next_task` comes to. -/
def nextStraight : List NavigationTask → Option StraightpathTask
  | .straight task :: _ => some task
  | .reverse :: task :: _ => some task.straightpathTask
  | _ => none

/-- The next straight path of the train can be reserved. -/
def NextIsFree (s : NavServer) (t : TrainNum) : Prop :=
  ∀ task ∈ nextStraight (s.navigationTasks t).items, s.canReserveSegment task.path t = true

/-- When a straightpath worker asks for the next path while the pathfind worker is parked,
the path is free. -/
def HandsOver (w : NavWorld) (m : NavMessage) : Prop :=
  match m.req with
  | .straightpathWorker t => w.server.states t = .straightpathing →
    w.server.pathfindWorkersParking t ≠ none → NextIsFree w.server t
  | _ => True

instance (s : NavServer) (t : TrainNum) : Decidable (NextIsFree s t) :=
  inferInstanceAs (Decidable (∀ task ∈ nextStraight (s.navigationTasks t).items, _))

instance (w : NavWorld) (m : NavMessage) : Decidable (HandsOver w m) := by
  unfold HandsOver
  generalize m.req = req
  rcases req with _ | _ <;> infer_instance

section

variable {T : Track} {t : TrainNum} {client : NavTask} {d d' : Desk} {p q : NavTaskState}
  {f f' : Table} {req : NavRequest} {es : List NavEvent}

theorem Approach.nextStraight {d₁ : Desk} {task : StraightpathTask}
    (h : Approach T t d d₁ es task) : nextStraight d.tasks.items = some task := by
  cases h with
  | straight h => rw [Fifo.items_of_pop h, Nav.nextStraight]
  | turned h _ h' => rw [Fifo.items_of_pop h, Fifo.items_of_pop h', Nav.nextStraight]

/-- A path that can be reserved can still be once the train has given back its nodes. -/
theorem Desk.can_of_free {path : List NodeNum} (h : ∀ n ∈ path, f n = none ∨ f n = some t) :
    d.Can T t f path := by
  intro n hn
  unfold Desk.cleared free
  split
  · exact .inl rfl
  · exact h n hn

/-- Where `process_next_task` leaves a search behind. -/
theorem NextTask.valid (h : NextTask T t d f es d' f') (h_valid : d.search.isValid = false)
    (h_new : d'.search.isValid = true) : d'.pathfinder = d.pathfinder ∧
      ∃ task, Nav.nextStraight d.tasks.items = some task ∧
        ¬∀ n ∈ task.path, f n = none ∨ f n = some t := by
  cases h with
  | drive h_app =>
    obtain ⟨-, -, h_search, -⟩ := h_app.desk
    rw [show _ = _ from h_search, h_valid] at h_new
    cases h_new
  | blocked h_app h_not =>
    obtain ⟨h_pf, -⟩ := h_app.desk
    exact ⟨h_pf, _, h_app.nextStraight, fun h_free => h_not (Desk.can_of_free h_free)⟩
  | arrive =>
    rw [Desk.finished_search] at h_new
    exact absurd (h_valid.symm.trans h_new) (by decide)

/-- A search is only left behind for a worker that is not parked. A request and a report give it to
one that is; the case in which a blocked path leads to a new search is what `h_free` is for. -/
theorem DeskStep.handsOver {phase : NavPhase} (h : DeskStep T t client d f req es d' f')
    (h_cell : Cell t d p q) (h_calls : Calls T client phase req)
    (h_p : client = .pathfindWorker t → p.waiting = none ∧ p.phase = phase)
    (h_free : req = .straightpathWorker t → d.state = .straightpathing → d.pathfinder ≠ none →
      ∀ task ∈ nextStraight d.tasks.items, ∀ n ∈ task.path, f n = none ∨ f n = some t)
    (h_before : d.search.isValid = true → d.pathfinder = none) :
    d'.search.isValid = true → d'.pathfinder = none := by
  -- a report comes while the pathfinder is not parked and no search is kept
  have h_searching : ∀ {result path}, req = .pathfindWorkerDone t result path →
      d.pathfinder = none ∧ d.search.isValid = false := by
    rintro result path rfl
    obtain ⟨rfl, source, destination, rfl, -⟩ := h_calls.pathfindWorkerDone
    exact ⟨h_cell.pathfinder_of_searching (h_p rfl).2, (h_cell.searching _ _ (h_p rfl).2).2⟩
  cases h with
  | busy | needRegister | parkDriver | drove | register => exact h_before
  | search => exact fun _ => rfl
  | searchLater _ _ h_parked => exact fun _ => h_parked
  -- a search that is kept is given out, so the pathfinder is not parked here
  | parkPathfinder h_no => exact fun h_valid => absurd ⟨h_cell.valid h_valid, h_valid⟩ h_no
  | giveSearch => exact fun _ => rfl
  | noPath => exact h_before
  | searchAgain =>
    intro _
    simpa [Desk.restarted] using (h_searching rfl).1
  | follow =>
    intro _
    simpa using (h_searching rfl).1
  | followNow h_path h_result h_tasks h_driver h_next =>
    intro h_valid
    obtain ⟨h_none, h_invalid⟩ := h_searching rfl
    obtain ⟨h_same, -⟩ := h_next.valid (by simpa using h_invalid) h_valid
    simpa [h_none] using h_same
  -- a search is kept for a blocked path; with the pathfinder parked, `h_free` excludes it
  | next h_state h_tasks h_next =>
    intro h_valid
    have h_invalid : d.search.isValid = false := by
      by_contra h_v
      have h_pathfinding := h_cell.valid (by simpa using h_v)
      rw [h_state] at h_pathfinding
      cases h_pathfinding
    obtain ⟨h_same, task, h_task, h_blocked⟩ := h_next.valid h_invalid h_valid
    by_contra h_parked
    rw [h_same] at h_parked
    exact h_blocked (h_free rfl h_state h_parked task h_task)
  | arrived =>
    rw [Desk.finished_search, Desk.finished_pathfinder]
    exact h_before

end

/-- **No lost work**, in every run in which no path is blocked while the pathfind worker is parked.

The condition is about the message in which a straightpath worker asks for its next path. Along such
a run, a train with a search noted has no parked pathfinder: a request hands the search over at
once, and a blocked path notes it while the worker is away. The tasks need no condition
(`Cell.handed`). -/
theorem no_lost_work {T : Track} {ms : List NavMessage} {w : NavWorld}
    (h : (worldSystem T).Reaches HandsOver ms w) : NoLostWork w.server := by
  have h_inv : Coupled T w ∧ ∀ t, (w.server.desk t).search.isValid = true →
      (w.server.desk t).pathfinder = none := by
    refine @System.Reaches.invariant _ _ _ _ (fun w => Coupled T w ∧ ∀ t,
      (w.server.desk t).search.isValid = true → (w.server.desk t).pathfinder = none) ?_ ?_ _ _ h
    · rintro w rfl
      exact ⟨coupled_start, fun t h_valid => by cases h_valid⟩
    · rintro w m w' ⟨h_w, h_before⟩ h_ok h_step
      refine ⟨h_w.step h_step, fun u => ?_⟩
      have h_send := h_step.1
      obtain h_same | ⟨es, d', f', h_train, h_desk⟩ := desk_of_step h_w.symmetric h_step u
      · rw [h_same]
        exact h_before u
      · -- the message is about the train
        rw [h_desk]
        refine h_train.step.handsOver (h_w.cells u) h_send.2 ?_ ?_ (h_before u)
        · exact fun h_eq => ⟨h_eq ▸ h_send.1, h_eq ▸ rfl⟩
        · intro h_req h_state h_parked task h_task
          rw [HandsOver, h_req] at h_ok
          exact (NavServer.canReserveSegment_iff u task.path).mp
            (h_ok h_state h_parked task h_task)
  refine ⟨?_, ?_⟩
  · -- the first kind of lost work: a search that is kept beside a parked pathfinder
    rintro t ⟨-, h_valid, h_parked⟩
    exact h_parked (h_inv.2 t h_valid)
  · -- the second: a task in the queue beside a parked driver
    rintro t ⟨h_state, h_tasks, h_parked⟩
    exact h_parked ((h_inv.1.cells t).handed h_state h_tasks)

/-- The message of `pathfind_worker` of train 0 for a route. -/
def foundRoute (route : List NodeNum) (h : route.Nodup) : NavMessage :=
  ⟨.pathfindWorker 0, .pathfindWorkerDone 0 .foundPath (.found route h)⟩

/-- Train 0 is sent along the ring and back; it drives the first part. -/
def thereAndBack : List NavMessage :=
  [⟨.other 0, .registerLocation 0 4⟩, ⟨.pathfindWorker 0, .whoami .pathfind⟩,
    ⟨.pathfindWorker 0, .pathfindWorker 0⟩, ⟨.straightpathWorker 0, .whoami .straightpath⟩,
    ⟨.straightpathWorker 0, .straightpathWorker 0⟩, ⟨.other 0, .navigationRequest 0 3 0 false⟩,
    foundRoute [4, 6, 8, 9, 7, 5, 3] (by decide), ⟨.pathfindWorker 0, .pathfindWorker 0⟩]

theorem no_lost_work_driving : ∃ w : NavWorld,
    (w.server.states 0 = .straightpathing ∧ (w.server.navigationTasks 0).items.length = 2) ∧
    NoLostWork w.server := by
  obtain ⟨w, h_reach, h_w⟩ := System.exists_reaches_of_play (@worldNext_step ringTrack) HandsOver
    (fun w => w.server.states 0 = .straightpathing ∧ (w.server.navigationTasks 0).items.length = 2)
    thereAndBack rfl (by decide +kernel)
  exact ⟨w, h_w, no_lost_work h_reach⟩

/-- Another train is put on the way back: the search that starts then is never done. -/
theorem not_no_lost_work : ¬∀ w, (worldSystem ringTrack).Reachable w → NoLostWork w.server := by
  intro h_all
  obtain ⟨w, h_reach, h_lost⟩ := System.exists_reaches_of_play (@worldNext_step ringTrack)
    (fun _ _ => True) (fun w => w.server.states 0 = .pathfinding ∧
      (w.server.pathfindTasks 0).isValid = true ∧ w.server.pathfindWorkersParking 0 ≠ none)
    (thereAndBack ++ [⟨.other 1, .registerLocation 1 2⟩,
      ⟨.straightpathWorker 0, .straightpathWorkerDone 0⟩,
      ⟨.straightpathWorker 0, .straightpathWorker 0⟩]) rfl (by decide +kernel)
  exact (h_all w h_reach.reachable).search 0 h_lost

end Nav
end PollingExpress
